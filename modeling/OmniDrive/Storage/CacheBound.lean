import OmniDrive.Storage.Cache

/-!
# The budget of the cache

An eviction takes the least recently used entries, spares the protected one and stops as soon as
the rest fits. Looking at the candidates page by page makes no difference.
-/

namespace OmniDrive

open StatementProgram Tables Eviction GuardedRuns

variable {P : Primitives}

namespace CacheIndex

variable {index index' : CacheIndex}

theorem nodup_entries (index : CacheIndex) : index.entries.Nodup := index.keys_nodup.of_map

/-- Entries are ordered by keys that do not repeat. -/
theorem nodup_lruKey (index : CacheIndex) : (index.entries.map lruKey).Nodup := by
  apply List.Nodup.map_on _ index.nodup_entries
  intro e he e' he' hkey
  have hcache : e.cacheKey = e'.cacheKey :=
    congrArg (fun k : Lex (ℤ × Lex (ℤ × String)) => (ofLex (ofLex k).2).2) hkey
  exact List.inj_on_of_nodup_map index.keys_nodup he he' hcache

theorem mem_byLru {e : CacheEntryRecord} : e ∈ index.byLru ↔ e ∈ index.entries := mem_orderBy _ _ _

theorem nodup_byLru (index : CacheIndex) : index.byLru.Nodup :=
  (orderBy_perm _ _).nodup_iff.mpr index.nodup_entries

/-- Fewer entries are listed in the same order. -/
theorem byLru_filter {p : CacheEntryRecord → Bool}
    (h : index'.entries = index.entries.filter p) : index'.byLru = index.byLru.filter p := by
  apply orderBy_eq_of_perm index'.nodup_lruKey
  · exact (pairwise_orderBy lruKey index.entries).filter p
  · rw [h]
    exact (orderBy_perm lruKey index.entries).filter p

/-- The total is the sum over the listed entries. -/
theorem totalCacheSize_eq_sizeOf (index : CacheIndex) :
    index.totalCacheSize = sizeOf CacheEntryRecord.size index.byLru :=
  ((orderBy_perm lruKey index.entries).map CacheEntryRecord.size).sum_eq.symm

/-- The total without some of the entries. -/
theorem totalCacheSize_filter {evicted : List CacheEntryRecord}
    (h : index'.entries = index.entries.filter fun e => e ∉ evicted)
    (hsub : ∀ e ∈ evicted, e ∈ index.entries) (hnodup : evicted.Nodup) :
    index'.totalCacheSize = index.totalCacheSize - sizeOf CacheEntryRecord.size evicted := by
  have hevicted : (index.entries.filter fun e => e ∈ evicted).Perm evicted := by
    apply (List.perm_ext_iff_of_nodup (index.nodup_entries.filter _) hnodup).mpr
    intro e
    rw [List.mem_filter, decide_eq_true_eq]
    exact ⟨And.right, fun he => ⟨hsub e he, he⟩⟩
  have hsplit : (evicted ++ index'.entries).Perm index.entries := by
    rw [h]
    refine (hevicted.symm.append_right _).trans ?_
    simpa using List.filter_append_perm (fun e => decide (e ∈ evicted)) index.entries
  have hsum : sizeOf CacheEntryRecord.size (evicted ++ index'.entries) = index.totalCacheSize :=
    (hsplit.map CacheEntryRecord.size).sum_eq
  rw [sizeOf_append] at hsum
  have htotal : sizeOf CacheEntryRecord.size index'.entries = index'.totalCacheSize := rfl
  omega

/-- Deleting the row of an entry leaves the other entries. -/
theorem entries_deleteCacheEntry {entry : CacheEntryRecord} (h : entry ∈ index.entries) :
    (index.deleteCacheEntry entry.cacheKey).entries = index.entries.filter fun e => e ≠ entry := by
  apply List.filter_congr
  intro e he
  by_cases heq : e = entry
  · simp [heq]
  · have hkey : e.cacheKey ≠ entry.cacheKey :=
      fun hkey => heq (List.inj_on_of_nodup_map index.keys_nodup he h hkey)
    simp [heq, hkey]

end CacheIndex

namespace CacheManager

open CacheIndex

/-- Whether an entry is the protected one. -/
def isProtected (protectedKey : Option String) (e : CacheEntryRecord) : Bool :=
  protectedKey = some e.cacheKey

/-- The entries that a budget costs, in their order. -/
def evictees (maxBytes : ℤ) (protectedKey : Option String) (total : ℤ)
    (listed : List CacheEntryRecord) : List CacheEntryRecord :=
  victims CacheEntryRecord.size (isProtected protectedKey) maxBytes total listed

/-- What an eviction has done: it has evicted the first of the victims, and all of them where it has
succeeded. -/
structure Evicted (victims : List CacheEntryRecord) (before : CacheDisk)
    (result : Except CacheError Unit) (after : CacheDisk) (evicted : List CacheEntryRecord) :
    Prop where
  first : evicted <+: victims
  complete : result = .ok () → evicted = victims
  entries : after.index.entries = before.index.entries.filter fun e => e ∉ evicted
  files : ∀ path, after.files path = before.files path ∨
    after.files path = none ∧ ∃ e ∈ evicted, e.cachePath = path

variable {io : CacheIo} {maxBytes : ℤ} {protectedKey : Option String}

/-- Nothing has been evicted. -/
theorem Evicted.refl {victims : List CacheEntryRecord} (disk : CacheDisk)
    {result : Except CacheError Unit} (h : result = .ok () → victims = []) :
    Evicted victims disk result disk [] where
  first := List.nil_prefix
  complete := fun hok => (h hok).symm
  entries := by simp
  files := fun _ => .inl rfl

/-- One part of the victims after the other. -/
theorem Evicted.trans {victims more : List CacheEntryRecord} {before middle after : CacheDisk}
    {result : Except CacheError Unit} {evicted : List CacheEntryRecord}
    (h : Evicted victims before (.ok ()) middle victims)
    (h' : Evicted more middle result after evicted) :
    Evicted (victims ++ more) before result after (victims ++ evicted) where
  first := (List.prefix_append_right_inj victims).mpr h'.first
  complete := fun hok => by rw [h'.complete hok]
  entries := by
    rw [h'.entries, h.entries, List.filter_filter]
    apply List.filter_congr
    intro e _
    by_cases hfirst : e ∈ victims <;> simp [hfirst]
  files := by
    intro path
    rcases h'.files path with hsame | ⟨hnone, e, he, hpath⟩
    · rw [hsame]
      exact (h.files path).imp_right fun ⟨hnone, e, he, hpath⟩ =>
        ⟨hnone, e, List.mem_append_left _ he, hpath⟩
    · exact .inr ⟨hnone, e, List.mem_append_right _ he, hpath⟩

/-- The deletion of one entry. -/
theorem evicted_deleteEntry {disk disk' : CacheDisk} {entry : CacheEntryRecord}
    (hmem : entry ∈ disk.index.entries)
    (h : deleteEntry io entry.cacheKey entry.cachePath disk = (.ok (), disk')) :
    Evicted [entry] disk (.ok ()) disk' [entry] := by
  rw [eq_of_deleteEntry_ok io h]
  refine ⟨List.prefix_rfl, fun _ => rfl, ?_, ?_⟩
  · rw [entries_deleteCacheEntry hmem]
    simp
  · intro path
    by_cases hpath : path = entry.cachePath
    · refine .inr ⟨?_, entry, List.mem_singleton_self _, hpath.symm⟩
      rw [hpath]
      exact Function.update_self _ _ _
    · exact .inl (Function.update_of_ne hpath _ _)

/-- A page evicts its victims. -/
theorem evicted_evictPage (io : CacheIo) (protectedKey : Option String)
    {candidates : List CacheEntryRecord} {s : EvictState} (hlt : maxBytes < s.totalSize)
    (hlisted : ∀ e ∈ candidates, e ∈ s.disk.index.entries) (hnodup : candidates.Nodup) :
    ∃ evicted,
      Evicted (evictees maxBytes protectedKey s.totalSize candidates) s.disk
        (evictPage io maxBytes protectedKey candidates s).1
        (evictPage io maxBytes protectedKey candidates s).2.disk evicted ∧
      (evictPage io maxBytes protectedKey candidates s).2.totalSize =
        s.totalSize - sizeOf CacheEntryRecord.size evicted ∧
      ((evictPage io maxBytes protectedKey candidates s).2.removedAny = true ↔
        s.removedAny = true ∨ evicted ≠ []) := by
  fun_induction evictPage io maxBytes protectedKey candidates s with
  | case1 s => exact ⟨[], .refl s.disk fun _ => rfl, by simp, by simp⟩
  | case2 entry rest s hkept ih =>
    have hvictims : evictees maxBytes protectedKey s.totalSize (entry :: rest) =
        evictees maxBytes protectedKey s.totalSize rest :=
      victims_cons_kept (decide_eq_true hkept)
    rw [hvictims]
    exact ih hlt (fun e he => hlisted e (List.mem_cons_of_mem _ he)) hnodup.of_cons
  | case3 entry rest s hkept e disk hdelete =>
    rw [eq_of_deleteEntry_error io hdelete]
    refine ⟨[], .refl s.disk ?_, by simp, by simp⟩
    intro hok
    cases hok
  | case4 entry rest s hkept disk hdelete s' hfits =>
    have hone := evicted_deleteEntry (hlisted entry List.mem_cons_self) hdelete
    have hspared : isProtected protectedKey entry = false := decide_eq_false hkept
    have hvictims : evictees maxBytes protectedKey s.totalSize (entry :: rest) = [entry] := by
      rw [evictees, victims_cons hspared hlt, victims_of_le hfits]
    rw [hvictims]
    exact ⟨[entry], hone, by simp [s'], by simp [s']⟩
  | case5 entry rest s hkept disk hdelete s' hfits ih =>
    have hone := evicted_deleteEntry (hlisted entry List.mem_cons_self) hdelete
    have hspared : isProtected protectedKey entry = false := decide_eq_false hkept
    have hvictims : evictees maxBytes protectedKey s.totalSize (entry :: rest) =
        [entry] ++ evictees maxBytes protectedKey s'.totalSize rest := by
      rw [evictees, victims_cons hspared hlt]
      rfl
    have hrest : ∀ e ∈ rest, e ∈ s'.disk.index.entries := by
      intro e he
      show e ∈ disk.index.entries
      rw [hone.entries, List.mem_filter]
      refine ⟨hlisted e (List.mem_cons_of_mem _ he), ?_⟩
      have hne : e ≠ entry := fun heq => (List.nodup_cons.mp hnodup).1 (heq ▸ he)
      simpa using hne
    obtain ⟨evicted, hevicted, htotal, hremoved⟩ := ih (not_le.mp hfits) hrest hnodup.of_cons
    rw [hvictims]
    refine ⟨[entry] ++ evicted, hone.trans hevicted, ?_, ?_⟩
    · rw [htotal, sizeOf_append]
      simp [s', sub_sub]
    · rw [hremoved]
      simp [s']

/-- After a page the size that the loop keeps track of is again the total of the index. -/
theorem totalSize_evictPage (io : CacheIo) (protectedKey : Option String)
    {candidates : List CacheEntryRecord} {s : EvictState} (hlt : maxBytes < s.totalSize)
    (hlisted : ∀ e ∈ candidates, e ∈ s.disk.index.entries) (hnodup : candidates.Nodup)
    (htotal : s.totalSize = s.disk.index.totalCacheSize) :
    (evictPage io maxBytes protectedKey candidates s).2.totalSize =
      (evictPage io maxBytes protectedKey candidates s).2.disk.index.totalCacheSize := by
  obtain ⟨evicted, hevicted, hsize, -⟩ :=
    evicted_evictPage io protectedKey hlt hlisted hnodup
  have hfirst := hevicted.first.trans
    (first_of_victims CacheEntryRecord.size (isProtected protectedKey) maxBytes _ candidates)
  have hsub : ∀ e ∈ evicted, e ∈ s.disk.index.entries := fun e he =>
    hlisted e (List.mem_filter.mp (hfirst.subset he)).1
  rw [hsize, htotal, totalCacheSize_filter hevicted.entries hsub
    ((hnodup.filter _).sublist hfirst.sublist)]

/-- A page without victims is the last one: at most one entry is protected. -/
theorem evictees_eq_nil {disk : CacheDisk} {total : ℤ} (hlt : maxBytes < total)
    (h : evictees maxBytes protectedKey total (disk.index.byLru.take 64) = []) :
    evictees maxBytes protectedKey total disk.index.byLru = [] := by
  have hall : ∀ e ∈ disk.index.byLru.take 64, isProtected protectedKey e = true := by
    have henough := (victims_enough CacheEntryRecord.size (isProtected protectedKey) maxBytes total
      (disk.index.byLru.take 64)).resolve_left (by
        rw [evictees] at h
        rw [h, sizeOf_nil]
        omega)
    rw [evictees] at h
    rw [h] at henough
    intro e he
    by_contra hkept
    have hmem : e ∈ (disk.index.byLru.take 64).filter fun e => !isProtected protectedKey e :=
      List.mem_filter.mpr ⟨he, by simpa using hkept⟩
    rw [← henough] at hmem
    cases hmem
  have hshort : disk.index.byLru.take 64 = disk.index.byLru := by
    -- two entries of the page would share the protected key
    apply List.take_of_length_le
    by_contra hlong
    have hlength : 1 < disk.index.byLru.length := by omega
    have hpage : ∀ i < 2, ∀ hi : i < disk.index.byLru.length,
        disk.index.byLru[i] ∈ disk.index.byLru.take 64 := by
      intro i htwo hi
      exact List.mem_take_iff_getElem.mpr ⟨i, by omega, rfl⟩
    have hfirst := hall _ (hpage 0 (by omega) (by omega))
    have hsecond := hall _ (hpage 1 (by omega) hlength)
    have hkeys := Option.some.inj ((of_decide_eq_true hfirst).symm.trans (of_decide_eq_true hsecond))
    have heq := List.inj_on_of_nodup_map disk.index.keys_nodup
      (mem_byLru.mp (List.getElem_mem _)) (mem_byLru.mp (List.getElem_mem _)) hkeys
    have hindex := (List.Nodup.getElem_inj_iff disk.index.nodup_byLru).mp heq
    omega
  rw [← hshort]
  exact h

/-- What is left of a page after its victims has no victims. -/
theorem evictees_rest {listed more : List CacheEntryRecord} {total : ℤ}
    (hnodup : (listed ++ more).Nodup) :
    evictees maxBytes protectedKey total (listed ++ more) =
      evictees maxBytes protectedKey total listed ++
        evictees maxBytes protectedKey
          (total - sizeOf CacheEntryRecord.size (evictees maxBytes protectedKey total listed))
          ((listed ++ more).filter fun e => e ∉ evictees maxBytes protectedKey total listed) := by
  have hmore : more.filter (fun e => e ∉ evictees maxBytes protectedKey total listed) = more := by
    apply List.filter_eq_self.mpr
    intro e he
    rw [decide_eq_true_eq]
    intro hvictim
    have hlisted := (first_of_victims CacheEntryRecord.size (isProtected protectedKey) maxBytes total
      listed).subset hvictim
    exact (List.nodup_append.mp hnodup).2.2 e (List.mem_filter.mp hlisted).1 e he rfl
  have hleft : evictees maxBytes protectedKey
      (total - sizeOf CacheEntryRecord.size (evictees maxBytes protectedKey total listed))
      (listed.filter fun e => e ∉ evictees maxBytes protectedKey total listed) = [] := by
    rcases victims_enough CacheEntryRecord.size (isProtected protectedKey) maxBytes total listed with hfits | hall
    · exact victims_of_le hfits _
    · apply victims_of_kept
      intro e he
      obtain ⟨hlisted, hspared⟩ := List.mem_filter.mp he
      by_contra hkept
      have hmem : e ∈ listed.filter fun e => !isProtected protectedKey e :=
        List.mem_filter.mpr ⟨hlisted, by simpa using hkept⟩
      rw [← hall] at hmem
      exact absurd hmem (of_decide_eq_true hspared)
  have happend := victims_append CacheEntryRecord.size (isProtected protectedKey) maxBytes total listed more
  have hrest := victims_append CacheEntryRecord.size (isProtected protectedKey) maxBytes
    (total - sizeOf CacheEntryRecord.size (evictees maxBytes protectedKey total listed))
    (listed.filter fun e => e ∉ evictees maxBytes protectedKey total listed) more
  rw [List.filter_append, hmore]
  unfold evictees at hleft hrest ⊢
  rw [hleft] at hrest
  rw [happend, hrest, sizeOf_nil, sub_zero]
  rfl

/-- The loop evicts the victims among all entries. -/
theorem evicted_evictLoop (disk : CacheDisk) (total : ℤ) : ∃ evicted,
    Evicted (evictees maxBytes protectedKey total disk.index.byLru) disk
      (evictLoop io maxBytes protectedKey disk total).1
      (evictLoop io maxBytes protectedKey disk total).2 evicted := by
  have hpage : ∀ d : CacheDisk, (∀ e ∈ d.index.byLru.take 64, e ∈ d.index.entries) ∧
      (d.index.byLru.take 64).Nodup := fun d =>
    ⟨fun e he => mem_byLru.mp (List.mem_of_mem_take he), d.index.nodup_byLru.sublist
      (List.take_sublist 64 _)⟩
  have hwhole : ∀ d : CacheDisk,
      (d.index.byLru.take 64 ++ d.index.byLru.drop 64).Nodup := by
    intro d
    rw [List.take_append_drop]
    exact d.index.nodup_byLru
  fun_induction evictLoop io maxBytes protectedKey disk total with
  | case1 disk total hlt candidates hempty =>
    have hnone : disk.index.byLru.take 64 = [] := List.isEmpty_iff.mp hempty
    refine ⟨[], .refl disk fun _ => evictees_eq_nil hlt ?_⟩
    rw [hnone]
    rfl
  | case2 disk total hlt candidates hsome page e herror =>
    obtain ⟨evicted, hevicted, -, -⟩ := evicted_evictPage io protectedKey
      (s := { disk, totalSize := total }) hlt (hpage disk).1 (hpage disk).2
    have hall : evictees maxBytes protectedKey total (disk.index.byLru.take 64) <+:
        evictees maxBytes protectedKey total disk.index.byLru := by
      rw [← List.take_append_drop 64 disk.index.byLru, evictees_rest (hwhole disk),
        List.take_append_drop]
      exact List.prefix_append _ _
    refine ⟨evicted, hevicted.first.trans hall, ?_, hevicted.entries, hevicted.files⟩
    intro hok
    cases hok
  | case3 disk total hlt candidates hsome page hok hremoved ih =>
    obtain ⟨evicted, hevicted, htotal, -⟩ := evicted_evictPage io protectedKey
      (s := { disk, totalSize := total }) hlt (hpage disk).1 (hpage disk).2
    obtain ⟨later, hlater⟩ := ih
    have hcomplete := hevicted.complete hok
    rw [show (evictPage io maxBytes protectedKey (disk.index.byLru.take 64)
      { disk, totalSize := total }).1 = .ok () from hok] at hevicted
    have hlisted : page.2.disk.index.byLru = (disk.index.byLru.take 64 ++
        disk.index.byLru.drop 64).filter fun e =>
          e ∉ evictees maxBytes protectedKey total (disk.index.byLru.take 64) := by
      rw [List.take_append_drop, ← hcomplete]
      exact byLru_filter hevicted.entries
    have hrest : evictees maxBytes protectedKey total disk.index.byLru =
        evictees maxBytes protectedKey total (disk.index.byLru.take 64) ++
          evictees maxBytes protectedKey page.2.totalSize page.2.disk.index.byLru := by
      rw [hlisted, show page.2.totalSize = _ from htotal, hcomplete, ← evictees_rest (hwhole disk),
        List.take_append_drop]
    rw [hcomplete] at hevicted
    rw [hrest]
    exact ⟨_, hevicted.trans hlater⟩
  | case4 disk total hlt candidates hsome page hok hnone =>
    obtain ⟨evicted, hevicted, -, hremoved⟩ := evicted_evictPage io protectedKey
      (s := { disk, totalSize := total }) hlt (hpage disk).1 (hpage disk).2
    have hnil : evicted = [] := by
      by_contra hsome
      exact hnone (hremoved.mpr (.inr hsome))
    have hvictims := hevicted.complete hok
    rw [hnil] at hvictims
    subst hnil
    exact ⟨[], List.nil_prefix, fun _ => (evictees_eq_nil hlt hvictims.symm).symm,
      hevicted.entries, hevicted.files⟩
  | case5 disk total hfits => exact ⟨[], .refl disk fun _ => victims_of_le (not_lt.mp hfits) _⟩

/-- A page fails only where a file cannot be removed. -/
theorem exists_of_evictPage_error {candidates : List CacheEntryRecord} {s : EvictState}
    {e : CacheError} (h : (evictPage io maxBytes protectedKey candidates s).1 = .error e) :
    ∃ path, io.removes path = false := by
  fun_induction evictPage io maxBytes protectedKey candidates s with
  | case1 s => cases h
  | case2 entry rest s hkept ih => exact ih h
  | case3 entry rest s hkept e' disk hdelete =>
    unfold deleteEntry at hdelete
    split at hdelete
    · rename_i hfails
      exact ⟨entry.cachePath, hfails.2⟩
    · cases hdelete
  | case4 entry rest s hkept disk hdelete s' hfits => cases h
  | case5 entry rest s hkept disk hdelete s' hfits ih => exact ih h

/-- So does the loop. -/
theorem exists_of_evictLoop_error {disk : CacheDisk} {total : ℤ} {e : CacheError}
    (h : (evictLoop io maxBytes protectedKey disk total).1 = .error e) :
    ∃ path, io.removes path = false := by
  fun_induction evictLoop io maxBytes protectedKey disk total with
  | case1 disk total hlt candidates hempty => cases h
  | case2 disk total hlt candidates hsome page e' herror => exact exists_of_evictPage_error herror
  | case3 disk total hlt candidates hsome page hok hremoved ih => exact ih h
  | case4 disk total hlt candidates hsome page hok hnone => cases h
  | case5 disk total hfits => cases h

/-- An eviction for the budget, with the reasons why it may fail. -/
theorem evicted_evictIfNeeded (io : CacheIo) (maxBytes : ℕ) (protectedKey : Option String)
    (disk : CacheDisk) :
    (∃ evicted, Evicted (evictees maxBytes protectedKey disk.index.totalCacheSize disk.index.byLru)
      disk (evictIfNeeded io maxBytes protectedKey disk).1
      (evictIfNeeded io maxBytes protectedKey disk).2 evicted) ∧
    ((evictIfNeeded io maxBytes protectedKey disk).1 ≠ .ok () →
      2 ^ 63 ≤ maxBytes ∨ disk.index.totalCacheSize < -2 ^ 63 ∨
        2 ^ 63 ≤ disk.index.totalCacheSize ∨ ∃ path, io.removes path = false) := by
  unfold evictIfNeeded cacheI64
  by_cases hbudget : maxBytes < 2 ^ 63
  · simp only [if_pos hbudget]
    split
    · split
      · rename_i hfits
        exact ⟨⟨[], .refl disk fun _ => victims_of_le hfits _⟩, fun h => absurd rfl h⟩
      · refine ⟨evicted_evictLoop disk _, fun h => .inr (.inr (.inr ?_))⟩
        cases hresult : (evictLoop io maxBytes protectedKey disk disk.index.totalCacheSize).1 with
        | ok => exact absurd hresult h
        | error e => exact exists_of_evictLoop_error hresult
    · rename_i hrange
      refine ⟨⟨[], .refl disk fun h => by cases h⟩, fun _ => ?_⟩
      by_cases hlow : -2 ^ 63 ≤ disk.index.totalCacheSize
      · exact .inr (.inr (.inl (not_lt.mp fun hhigh => hrange ⟨hlow, hhigh⟩)))
      · exact .inr (.inl (not_le.mp hlow))
  · simp only [if_neg hbudget]
    exact ⟨⟨[], .refl disk fun h => by cases h⟩, fun _ => .inl (not_lt.mp hbudget)⟩

/-- An eviction ends, spares the protected entry, takes the least recently used entries and no more
of them than needed, and keeps to the budget; it fails only for a budget or a total that is out of
range or for a file that cannot be removed. -/
def KeepsBudget (io : CacheIo) (maxBytes : ℕ) (protectedKey : Option String) (disk : CacheDisk) :
    Prop :=
  ∃ evicted,
    let after := evictIfNeeded io maxBytes protectedKey disk
    (after.2.index.entries = disk.index.entries.filter fun e => e ∉ evicted) ∧
    (∀ e ∈ evicted, protectedKey ≠ some e.cacheKey) ∧
    (evicted <+: disk.index.byLru.filter fun e => protectedKey ≠ some e.cacheKey) ∧
    (∀ first e, first ++ [e] <+: evicted →
      maxBytes < disk.index.totalCacheSize - sizeOf CacheEntryRecord.size first) ∧
    (after.1 = .ok () → after.2.index.totalCacheSize ≤ maxBytes ∨
      ∀ e ∈ after.2.index.entries, protectedKey = some e.cacheKey) ∧
    (after.1 ≠ .ok () → 2 ^ 63 ≤ maxBytes ∨ disk.index.totalCacheSize < -2 ^ 63 ∨
      2 ^ 63 ≤ disk.index.totalCacheSize ∨ ∃ path, io.removes path = false)

theorem keepsBudget (io : CacheIo) (maxBytes : ℕ) (protectedKey : Option String)
    (disk : CacheDisk) : KeepsBudget io maxBytes protectedKey disk := by
  obtain ⟨⟨evicted, h⟩, hfails⟩ := evicted_evictIfNeeded io maxBytes protectedKey disk
  have hfirst := h.first.trans
    (first_of_victims CacheEntryRecord.size (isProtected protectedKey) maxBytes _ _)
  have hspared : (disk.index.byLru.filter fun e => !isProtected protectedKey e) =
      disk.index.byLru.filter fun e => protectedKey ≠ some e.cacheKey := by
    apply List.filter_congr
    intro e _
    simp [isProtected]
  rw [hspared] at hfirst
  refine ⟨evicted, h.entries, ?_, hfirst, ?_, ?_, hfails⟩
  · intro e he
    exact of_decide_eq_true (List.mem_filter.mp (hfirst.subset he)).2
  · exact fun first e hfront => lt_of_prefix_victims (hfront.trans h.first)
  · intro hok
    have hsub : ∀ e ∈ evicted, e ∈ disk.index.entries := fun e he =>
      mem_byLru.mp (List.mem_filter.mp (hfirst.subset he)).1
    have hnodup : evicted.Nodup := (disk.index.nodup_byLru.filter _).sublist hfirst.sublist
    rw [totalCacheSize_filter h.entries hsub hnodup, h.complete hok]
    refine (victims_enough CacheEntryRecord.size (isProtected protectedKey) maxBytes _ _).imp id ?_
    intro hall e he
    rw [h.entries, h.complete hok, List.mem_filter] at he
    by_contra hkept
    refine absurd (of_decide_eq_true he.2) (not_not_intro ?_)
    rw [evictees, hall, hspared, List.mem_filter]
    exact ⟨mem_byLru.mpr he.1, decide_eq_true hkept⟩

end CacheManager

/-! ## Runs of the cache -/

/-- What happens to a cache: insertions and lookups, with what the disk answers, and changes of the
vault and of the time. -/
inductive CacheOp (P : Primitives) where
  | putChunk (io : CacheIo) (inodeId revisionId chunkIndex : ℤ) (packId filePath : String)
      (bytes : Bytes) (isPrefetched : Bool)
  | getChunk (io : CacheIo) (key : String)
  | outside (vault : VaultWorld P) (now : ℤ)

/-- One operation on a cache, whether it succeeds or fails. -/
def CacheOp.step (C : ChunkPrimitives P) (rootDir : String) (maxBytes : ℕ) :
    CacheOp P → CacheWorld P → CacheWorld P
  | .putChunk io inodeId revisionId chunkIndex packId filePath bytes isPrefetched, w =>
    ((CacheManager.putChunk C io rootDir maxBytes inodeId revisionId chunkIndex packId filePath
      bytes isPrefetched).run w).2
  | .getChunk io key, w => ((CacheManager.getChunk C io key).run w).2
  | .outside vault now, w => { w with vault, now }

theorem run_onDisk {α : Type} (f : CacheDisk → Except CacheError α × CacheDisk) (w : CacheWorld P) :
    (onDisk f).run w = ((f w.disk).1, { w with disk := (f w.disk).2 }) := by
  have hrun : ∀ (x : Except CacheError α) (v : CacheWorld P),
      (Prog.ofExcept x : CacheProg P α).run v = (x, v) := by
    intro x v
    cases x <;> rfl
  exact hrun _ _

/-- The last step of a successful insertion is a successful eviction. -/
theorem exists_evict_of_putChunk {C : ChunkPrimitives P} {io : CacheIo} {rootDir : String}
    {maxBytes : ℕ} {inodeId revisionId chunkIndex : ℤ} {packId filePath : String} {bytes : Bytes}
    {isPrefetched : Bool} {w w' : CacheWorld P}
    (h : (CacheManager.putChunk C io rootDir maxBytes inodeId revisionId chunkIndex packId filePath
      bytes isPrefetched).run w = (.ok (), w')) :
    ∃ disk, CacheManager.evictIfNeeded io maxBytes
      (some (CacheManager.cacheKey revisionId chunkIndex)) disk = (.ok (), w'.disk) := by
  unfold CacheManager.putChunk at h
  dsimp only at h
  split at h
  · cases h
  obtain ⟨_, _, -, h⟩ := Prog.run_bind_ok h
  obtain ⟨_, _, -, h⟩ := Prog.run_bind_ok h
  obtain ⟨_, _, -, h⟩ := Prog.run_bind_ok h
  obtain ⟨_, _, -, h⟩ := Prog.run_bind_ok h
  obtain ⟨_, v, -, h⟩ := Prog.run_bind_ok h
  rw [run_onDisk] at h
  obtain ⟨hok, hdisk⟩ := Prod.mk.inj h
  exact ⟨v.disk, Prod.ext hok (congrArg CacheWorld.disk hdisk)⟩

open CacheIndex CacheManager in
/-- Evictions keep to the budget, and so does the cache after every insertion that succeeds; the size
that is tracked, the total of the index and the sum over the listed entries are the same
throughout. -/
theorem cache_bounded (C : ChunkPrimitives P) (rootDir : String) (maxBytes : ℕ) :
    (∀ (io : CacheIo) (protectedKey : Option String) (disk : CacheDisk),
      KeepsBudget io maxBytes protectedKey disk) ∧
    (∀ io inodeId revisionId chunkIndex packId filePath bytes isPrefetched (w w' : CacheWorld P),
      (putChunk C io rootDir maxBytes inodeId revisionId chunkIndex packId filePath bytes
        isPrefetched).run w = (.ok (), w') →
      w'.disk.index.totalCacheSize ≤ maxBytes ∨
        ∀ e ∈ w'.disk.index.entries, e.cacheKey = cacheKey revisionId chunkIndex) ∧
    (∀ (io : CacheIo) (protectedKey : Option String) (s : EvictState), maxBytes < s.totalSize →
      s.totalSize = s.disk.index.totalCacheSize →
      let page := evictPage io maxBytes protectedKey (s.disk.index.listCacheEntriesByLru 64) s
      page.2.totalSize = page.2.disk.index.totalCacheSize) ∧
    ∀ (ops : List (CacheOp P)) (w : CacheWorld P),
      ∀ t ∈ states (CacheOp.step C rootDir maxBytes) ops w,
        ∀ n : ℤ, t.disk.index.entries.length ≤ n →
          sizeOf CacheEntryRecord.size (t.disk.index.listCacheEntriesByLru n) =
            t.disk.index.totalCacheSize := by
  refine ⟨fun io protectedKey disk => keepsBudget io maxBytes protectedKey disk, ?_, ?_, ?_⟩
  · intro io inodeId revisionId chunkIndex packId filePath bytes isPrefetched w w' h
    obtain ⟨disk, hevict⟩ := exists_evict_of_putChunk h
    obtain ⟨evicted, -, -, -, -, hfits, -⟩ :=
      keepsBudget io maxBytes (some (cacheKey revisionId chunkIndex)) disk
    rw [hevict] at hfits
    exact (hfits rfl).imp_right fun hkept e he => (Option.some.inj (hkept e he)).symm
  · intro io protectedKey s hlt htotal
    apply totalSize_evictPage io protectedKey hlt _ _ htotal
    · exact fun e he => mem_byLru.mp (mem_of_mem_limit he)
    · exact s.disk.index.nodup_byLru.sublist (List.take_sublist 64 _)
  · intro ops w t _ n hn
    have hlength : t.disk.index.byLru.length = t.disk.index.entries.length :=
      (orderBy_perm _ _).length_eq
    rw [listCacheEntriesByLru, limit, if_neg (by omega), List.take_of_length_le (by omega),
      totalCacheSize_eq_sizeOf]

end OmniDrive
