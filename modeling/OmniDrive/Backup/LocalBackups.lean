import Mathlib.Data.String.Basic
import OmniDrive.Crypto.Primitives
import OmniDrive.Library.Gregorian
import OmniDrive.Library.Retention
import OmniDrive.Library.Text

/-!
# Local backups of the database

The copies of the database that are made once a day next to it, and the rotation that deletes old
ones. The age of a copy is read off its name, so the names have to be in the order of the times
they are made from.
-/

namespace OmniDrive

open Gregorian Retention Text

namespace Backup

/-! ## `disaster_recovery.rs` -/

/-- The errors of a local backup. -/
inductive LocalBackupError where
  | invalidOutputPath (reason : String)
  | io
  | db
  deriving DecidableEq, Repr

/-- A `SystemTime` is the number of nanoseconds after the Unix epoch. -/
def nanosPerSecond : ℕ := 1000000000

/-- `LOCAL_DB_BACKUP_MIN_INTERVAL`. -/
def localDbBackupMinInterval : ℤ := 60 * 60 * 24 * nanosPerSecond

/-- `LOCAL_DB_BACKUP_RETENTION`. -/
def localDbBackupRetention : ℕ := 3

/-- The date of a day after the Unix epoch. -/
def civilFromDays (days : ℤ) : ℤ × ℕ × ℕ :=
  let shifted := days + 719468
  let era := shifted / 146097
  let dayOfEra := shifted % 146097
  let yearOfEra := (dayOfEra - dayOfEra / 1460 + dayOfEra / 36524 - dayOfEra / 146096) / 365
  let year := yearOfEra + era * 400
  let dayOfYear := dayOfEra - (365 * yearOfEra + yearOfEra / 4 - yearOfEra / 100)
  let monthPosition := (5 * dayOfYear + 2) / 153
  let day := (dayOfYear - (153 * monthPosition + 2) / 5 + 1).toNat
  let month := (if monthPosition < 10 then monthPosition + 3 else monthPosition - 9).toNat
  (if month ≤ 2 then year + 1 else year, month, day)

/-- `{year:04}`; a sign takes one of the places. -/
def paddedYear (year : ℤ) : List Char :=
  if year < 0 then '-' :: padded 3 year.natAbs else padded 4 year.toNat

/-- The stamp of a second after the Unix epoch. -/
def stampChars (seconds : ℕ) : List Char :=
  let (year, month, day) := civilFromDays (seconds / 86400 : ℕ)
  let secondsOfDay := seconds % 86400
  paddedYear year ++ (padded 2 month ++ (padded 2 day ++ ('_' :: (padded 2 (secondsOfDay / 3600) ++
    (padded 2 (secondsOfDay % 3600 / 60) ++ padded 2 (secondsOfDay % 60))))))

def formatUtcCompact (time : ℤ) : Except LocalBackupError String :=
  if time < 0 then .error (.invalidOutputPath "timestamp before unix epoch")
  else .ok (String.ofList (stampChars (time.toNat / nanosPerSecond)))

/-- `strip_prefix`. -/
def stripFront (front s : String) : Option String :=
  if front.toList.isPrefixOf s.toList then some (String.ofList (s.toList.drop front.toList.length))
  else none

def isAsciiDigit (byte : UInt8) : Bool := 0x30 ≤ byte && byte ≤ 0x39

def localBackupTimestampSuffix (fileName dbFileName : String) : Option String :=
  match stripFront (dbFileName ++ ".bak.") fileName with
  | none => none
  | some suffix =>
    let bytes := suffix.toUTF8.toList
    if bytes.length ≠ 15 ∨ bytes[8]? ≠ some 0x5f then none
    else if ¬ (bytes.take 8).all isAsciiDigit then none
    else if ¬ (bytes.drop 9).all isAsciiDigit then none
    else some suffix

/-- The name of a file, which need not be UTF-8. -/
inductive FileName where
  | utf8 (name : String)
  | other (bytes : Bytes)
  deriving DecidableEq, Repr

/-- The folder of the database: each name once, with the contents of its file. -/
structure BackupFolder where
  entries : List (FileName × Bytes)
  nodup : (entries.map Prod.fst).Nodup

namespace BackupFolder

def names (folder : BackupFolder) : List FileName := folder.entries.map Prod.fst

/-- `remove_file`. -/
def remove (name : FileName) (folder : BackupFolder) : BackupFolder where
  entries := folder.entries.filter fun entry => entry.1 ≠ name
  nodup := folder.nodup.sublist (List.filter_sublist.map _)

/-- Write a file, in place of one with its name. -/
def write (name : FileName) (content : Bytes) (folder : BackupFolder) : BackupFolder where
  entries := (folder.remove name).entries ++ [(name, content)]
  nodup := by
    rw [List.map_append, List.map_singleton, List.nodup_append]
    refine ⟨(folder.remove name).nodup, List.nodup_singleton _, ?_⟩
    intro other hother written hwritten
    obtain ⟨entry, hentry, rfl⟩ := List.mem_map.mp hother
    rw [List.mem_singleton.mp hwritten]
    simpa using (List.mem_filter.mp hentry).2

end BackupFolder

/-- What the file system and the database do in a run: whether the folder is listed, whether the
test for the new file works, which files can be removed, and what `VACUUM INTO` writes. -/
structure BackupIo where
  listed : Bool
  tested : Bool
  removes : FileName → Bool
  vacuumed : Option Bytes

/-- The name of a backup. -/
def backupName (dbFileName stamp : String) : FileName := .utf8 (dbFileName ++ ".bak." ++ stamp)

/-- The stamp in the name of a file. -/
def stampOf (dbFileName : String) : FileName → Option String
  | .utf8 name => localBackupTimestampSuffix name dbFileName
  | .other _ => none

/-- The stamps in a folder, in the order of the listing. -/
def stampsOf (dbFileName : String) (folder : BackupFolder) : List String :=
  folder.names.filterMap (stampOf dbFileName)

/-- Delete the first backups of a list until as many as are kept are left; a failure is passed
over. -/
def rotateBackups (dbFileName : String) (removes : FileName → Bool) :
    List String → BackupFolder → BackupFolder
  | [], folder => folder
  | stale :: stamps, folder =>
    if localDbBackupRetention < (stale :: stamps).length then
      let stalePath := backupName dbFileName stale
      rotateBackups dbFileName removes stamps
        (if removes stalePath then folder.remove stalePath else folder)
    else folder

/-- The part of a run from the test for the new file on. -/
def makeBackup (dbFileName : String) (now : ℤ) (stamps : List String) (io : BackupIo)
    (folder : BackupFolder) : Except LocalBackupError (Option FileName) × BackupFolder :=
  match formatUtcCompact now with
  | .error e => (.error e, folder)
  | .ok stamp =>
    let backupPath := backupName dbFileName stamp
    if ¬ io.tested then (.error .io, folder)
    else if backupPath ∈ folder.names ∧ ¬ io.removes backupPath then (.error .io, folder)
    else
      let folder := folder.remove backupPath
      match io.vacuumed with
      | none => (.error .db, folder)
      | some content =>
        (.ok (some backupPath), rotateBackups dbFileName io.removes
          (sorted (stamps ++ [stamp])) (folder.write backupPath content))

/-- `run_local_db_backup_if_due`; times before `earliest` cannot be represented, and the database
may have a name that is not UTF-8. -/
def runLocalDbBackupIfDue (earliest : ℤ) (dbFileName : Option String) (now : ℤ)
    (io : BackupIo) (folder : BackupFolder) :
    Except LocalBackupError (Option FileName) × BackupFolder :=
  match dbFileName with
  | none => (.ok none, folder)
  | some dbFileName =>
    if now - localDbBackupMinInterval < earliest then (.ok none, folder)
    else if ¬ io.listed then (.error .io, folder)
    else
      let stamps := sorted (stampsOf dbFileName folder)
      match formatUtcCompact (now - localDbBackupMinInterval) with
      | .error e => (.error e, folder)
      | .ok cutoff =>
        if stamps.getLast?.any fun newest => cutoff ≤ newest then (.ok none, folder)
        else makeBackup dbFileName now stamps io folder

/-! ## Dates -/

/-- The date of a day is the one with its number. -/
theorem civilFromDays_dayNumber (a : Date) :
    civilFromDays (a.dayNumber - 719528) = ((a.year : ℤ), a.month, a.day) := by
  have hday := a.day_mem
  have hmonth := a.month_mem
  have hcount := a.dayNumber_march
  obtain ⟨hfirst, hlast⟩ := a.marchDay_le
  have hera : ((a.dayNumber : ℤ) - 719528 + 719468) / 146097 = a.marchYear / 400 := by omega
  have hdayOfEra : ((a.dayNumber : ℤ) - 719528 + 719468) % 146097 =
      365 * (a.marchYear % 400) + a.marchYear % 400 / 4 - a.marchYear % 400 / 100 + a.marchDay := by
    omega
  have hwithin : 0 ≤ a.marchYear % 400 ∧ a.marchYear % 400 < 400 := by omega
  have hyearOfEra := yearOfEra_eq hwithin hfirst (by omega) hdayOfEra
  have hdayOfYear : ((a.dayNumber : ℤ) - 719528 + 719468) % 146097 - (365 * (a.marchYear % 400) +
      a.marchYear % 400 / 4 - a.marchYear % 400 / 100) = a.marchDay := by omega
  simp only [civilFromDays, hyearOfEra, hera, hdayOfYear, a.marchMonth_eq]
  -- the months of a year that begins in March, back to those of the year
  by_cases hbegins : a.month ≤ 2
  · simp only [Date.marchDay, Date.marchMonth, Date.marchYear, if_pos hbegins, Prod.mk.injEq]
    split_ifs <;> omega
  · simp only [Date.marchDay, Date.marchMonth, Date.marchYear, if_neg hbegins, Prod.mk.injEq]
    split_ifs <;> omega

/-- The first second of the year 10000. -/
def year10000 : ℕ := 253402300800

/-- The days of the stamps have four-digit years. -/
theorem exists_date {seconds : ℕ} (h : seconds < year10000) :
    ∃ a : Date, a.dayNumber = seconds / 86400 + 719528 ∧ a.year < 10 ^ 4 := by
  obtain ⟨a, hnumber⟩ := Date.exists_dayNumber_eq (seconds / 86400 + 719528)
  refine ⟨a, hnumber, ?_⟩
  have hcount := daysBeforeYear_eq a.year
  rw [Date.dayNumber] at hnumber
  rw [year10000] at h
  omega

/-- The digits of the time of the day. -/
def clockChars (seconds : ℕ) : List Char :=
  padded 2 (seconds % 86400 / 3600) ++ (padded 2 (seconds % 86400 % 3600 / 60) ++
    padded 2 (seconds % 86400 % 60))

/-- The stamp of a second, from its date. -/
theorem stampChars_eq {seconds : ℕ} {a : Date} (h : a.dayNumber = seconds / 86400 + 719528) :
    stampChars seconds = padded 4 a.year ++ (padded 2 a.month ++ (padded 2 a.day ++
      ('_' :: clockChars seconds))) := by
  have hdays : ((seconds / 86400 : ℕ) : ℤ) = a.dayNumber - 719528 := by omega
  have hyear : paddedYear (a.year : ℤ) = padded 4 a.year := by simp [paddedYear]
  simp only [stampChars, hdays, civilFromDays_dayNumber, hyear, clockChars]

theorem day_lt (a : Date) : a.day < 10 ^ 2 := by
  have hday := a.day_mem
  rw [monthLength] at hday
  split_ifs at hday <;> omega

theorem month_lt (a : Date) : a.month < 10 ^ 2 := by
  have hmonth := a.month_mem
  omega

/-- Later seconds have greater stamps. -/
theorem stampChars_lt {s t : ℕ} (h : s < t) (ht : t < year10000) :
    stampChars s < stampChars t := by
  obtain ⟨b, hb, hyearB⟩ := exists_date ht
  rw [stampChars_eq hb]
  by_cases hsame : s / 86400 = t / 86400
  · rw [stampChars_eq (hb.trans (by rw [hsame]))]
    apply List.append_left_lt
    apply List.append_left_lt
    apply List.append_left_lt
    rw [List.cons_lt_cons_iff]
    refine Or.inr ⟨rfl, padded_append_lt (by omega) ?_⟩
    by_cases hhour : s % 86400 / 3600 < t % 86400 / 3600
    · exact Or.inl hhour
    refine Or.inr ⟨by omega, padded_append_lt (by omega) ?_⟩
    by_cases hminute : s % 86400 % 3600 / 60 < t % 86400 % 3600 / 60
    · exact Or.inl hminute
    exact Or.inr ⟨by omega, padded_lt_padded (by omega) (by omega)⟩
  · obtain ⟨a, ha, -⟩ := exists_date (Nat.lt_trans h ht)
    have hbefore : a.Before b := Date.before_of_dayNumber_lt (by omega)
    rw [stampChars_eq ha]
    apply padded_append_lt hyearB
    rcases hbefore with hyear | ⟨hyear, hrest⟩
    · exact Or.inl hyear
    refine Or.inr ⟨hyear, padded_append_lt (month_lt b) ?_⟩
    rcases hrest with hmonth | ⟨hmonth, hday⟩
    · exact Or.inl hmonth
    exact Or.inr ⟨hmonth, padded_append_lt (day_lt b) (Or.inl hday)⟩

/-! ## Stamps -/

/-- Eight digits, an underscore and six digits. -/
def IsStamp (suffix : String) : Prop :=
  suffix.toUTF8.toList.length = 15 ∧ suffix.toUTF8.toList[8]? = some 0x5f ∧
    (suffix.toUTF8.toList.take 8).all isAsciiDigit = true ∧
    (suffix.toUTF8.toList.drop 9).all isAsciiDigit = true

theorem stripFront_eq_some {front s rest : String} :
    stripFront front s = some rest ↔ s = front ++ rest := by
  rw [stripFront]
  constructor
  · intro h
    split_ifs at h with hfront
    obtain ⟨behind, hbehind⟩ := List.isPrefixOf_iff_prefix.mp hfront
    rw [← hbehind, List.drop_left] at h
    rw [← Option.some.inj h, ← String.toList_inj, ← hbehind, String.toList_append,
      String.toList_ofList]
  · rintro rfl
    have hfront : front.toList.isPrefixOf (front ++ rest).toList = true := by
      rw [List.isPrefixOf_iff_prefix, String.toList_append]
      exact List.prefix_append _ _
    rw [if_pos hfront, String.toList_append, List.drop_left, String.ofList_toList]

/-- A file is a backup where its name ends in a stamp. -/
theorem localBackupTimestampSuffix_eq_some {fileName dbFileName suffix : String} :
    localBackupTimestampSuffix fileName dbFileName = some suffix ↔
      fileName = dbFileName ++ ".bak." ++ suffix ∧ IsStamp suffix := by
  rw [localBackupTimestampSuffix, ← stripFront_eq_some]
  cases stripFront (dbFileName ++ ".bak.") fileName with
  | none => simp
  | some found =>
    simp only [Option.some.injEq, IsStamp]
    constructor
    · intro h
      split_ifs at h with hshape hfront hbehind
      cases h
      obtain ⟨hlength, hmark⟩ := not_or.mp hshape
      exact ⟨rfl, not_not.mp hlength, not_not.mp hmark, hfront, hbehind⟩
    · rintro ⟨rfl, hlength, hmark, hfront, hbehind⟩
      rw [if_neg (not_or.mpr ⟨not_not.mpr hlength, not_not.mpr hmark⟩),
        if_neg (not_not.mpr hfront), if_neg (not_not.mpr hbehind)]

theorem isAsciiDigit_asciiByte {c : Char} (h : c.isDigit = true) :
    IsAscii c ∧ isAsciiDigit (asciiByte c) = true := by
  obtain ⟨hlow, hhigh⟩ := Char.isDigit_iff_toNat.mp h
  have hnine : '9'.toNat = 57 := rfl
  have hbyte : (asciiByte c).toNat = c.toNat := by
    rw [asciiByte, UInt8.toNat_ofNat']
    omega
  refine ⟨Nat.lt_of_le_of_lt hhigh (by decide), ?_⟩
  simp only [isAsciiDigit, Bool.and_eq_true, decide_eq_true_eq, UInt8.le_iff_toNat_le, hbyte]
  exact ⟨hlow, hhigh⟩

/-- Digits around an underscore are a stamp. -/
theorem isStamp_of_chars {front behind : List Char} (hfront : front.length = 8)
    (hbehind : behind.length = 6) (hdigits : ∀ c ∈ front ++ behind, c.isDigit = true) :
    IsStamp (String.ofList (front ++ '_' :: behind)) := by
  have hascii : ∀ c ∈ front ++ '_' :: behind, IsAscii c := by
    intro c hc
    rcases List.mem_append.mp hc with hc | hc
    · exact (isAsciiDigit_asciiByte (hdigits c (List.mem_append_left _ hc))).1
    rcases List.mem_cons.mp hc with rfl | hc
    · exact Nat.lt_of_sub_eq_succ rfl
    · exact (isAsciiDigit_asciiByte (hdigits c (List.mem_append_right _ hc))).1
  have hall : ∀ l : List Char, (∀ c ∈ l, c.isDigit = true) →
      (l.map asciiByte).all isAsciiDigit = true := by
    intro l hl
    simp only [List.all_map, List.all_eq_true, Function.comp_apply]
    exact fun c hc => (isAsciiDigit_asciiByte (hl c hc)).2
  have hlength : (front.map asciiByte).length = 8 := by simpa using hfront
  have hsplit : (front ++ '_' :: behind).map asciiByte =
      front.map asciiByte ++ 0x5f :: behind.map asciiByte := by
    rw [List.map_append, List.map_cons]
    rfl
  rw [IsStamp, toUTF8_toList_ofList hascii, hsplit]
  refine ⟨by simp [hfront, hbehind], ?_, ?_, ?_⟩
  · rw [List.getElem?_append_right (by omega), hlength]
    rfl
  · rw [← hlength, List.take_left]
    exact hall front fun c hc => hdigits c (List.mem_append_left _ hc)
  · rw [List.drop_append, List.drop_eq_nil_of_le (by omega), List.nil_append, hlength]
    exact hall behind fun c hc => hdigits c (List.mem_append_right _ hc)

/-- The stamp of a time. -/
def stampAt (time : ℤ) : String :=
  String.ofList (stampChars (time.toNat / nanosPerSecond))

/-- The times from the Unix epoch on. -/
theorem formatUtcCompact_of_nonneg {time : ℤ} (h : 0 ≤ time) :
    formatUtcCompact time = .ok (stampAt time) := if_neg (not_lt.mpr h)

example : stampAt (1700000000 * nanosPerSecond) = "20231114_221320" := by rfl

/-- The times before the year 10000. -/
def FourDigitYear (time : ℤ) : Prop := time < year10000 * nanosPerSecond

instance (time : ℤ) : Decidable (FourDigitYear time) := inferInstanceAs (Decidable (_ < _))

theorem FourDigitYear.seconds {time : ℤ} (h : FourDigitYear time) :
    time.toNat / nanosPerSecond < year10000 := by
  rw [FourDigitYear] at h
  rw [nanosPerSecond, year10000] at *
  omega

/-- The stamp of a time is a stamp. -/
theorem isStamp_stampAt {time : ℤ} (h : FourDigitYear time) : IsStamp (stampAt time) := by
  obtain ⟨a, hnumber, hyear⟩ := exists_date h.seconds
  have hhour : time.toNat / nanosPerSecond % 86400 / 3600 < 10 ^ 2 := by omega
  have hminute : time.toNat / nanosPerSecond % 86400 % 3600 / 60 < 10 ^ 2 := by omega
  have hsecond : time.toNat / nanosPerSecond % 86400 % 60 < 10 ^ 2 := by omega
  have hshape : stampChars (time.toNat / nanosPerSecond) =
      (padded 4 a.year ++ (padded 2 a.month ++ padded 2 a.day)) ++
        '_' :: clockChars (time.toNat / nanosPerSecond) := by
    rw [stampChars_eq hnumber, List.append_assoc, List.append_assoc]
  rw [stampAt, hshape]
  apply isStamp_of_chars
  · simp [length_padded hyear, length_padded (month_lt a), length_padded (day_lt a)]
  · rw [clockChars, List.length_append, List.length_append, length_padded hhour,
      length_padded hminute, length_padded hsecond]
  · intro c hc
    simp only [clockChars, List.mem_append, or_assoc] at hc
    rcases hc with hc | hc | hc | hc | hc | hc
    · exact isDigit_of_mem_padded hyear hc
    · exact isDigit_of_mem_padded (month_lt a) hc
    · exact isDigit_of_mem_padded (day_lt a) hc
    · exact isDigit_of_mem_padded hhour hc
    · exact isDigit_of_mem_padded hminute hc
    · exact isDigit_of_mem_padded hsecond hc

/-- A greater stamp is of a later second. -/
theorem stampAt_lt {s t : ℤ}
    (h : s.toNat / nanosPerSecond < t.toNat / nanosPerSecond) (ht : FourDigitYear t) :
    stampAt s < stampAt t := by
  rw [String.lt_iff_toList_lt, stampAt, stampAt, String.toList_ofList, String.toList_ofList]
  exact stampChars_lt h ht.seconds

theorem lt_of_stampAt_lt {s t : ℤ} (h : stampAt s < stampAt t) (hs : FourDigitYear s) :
    s.toNat / nanosPerSecond < t.toNat / nanosPerSecond := by
  by_contra hnot
  rcases Nat.lt_or_eq_of_le (Nat.not_lt.mp hnot) with hless | heq
  · exact lt_asymm h (stampAt_lt hless hs)
  · rw [stampAt, stampAt, heq] at h
    exact lt_irrefl _ h

theorem stampAt_le {s t : ℤ} (h : s ≤ t) (ht : FourDigitYear t) :
    stampAt s ≤ stampAt t := by
  by_contra hnot
  have hless := lt_of_stampAt_lt (not_le.mp hnot) ht
  rw [nanosPerSecond] at hless
  omega

/-! ## The stamps in a folder -/

section Folders

variable {dbFileName : String} {folder : BackupFolder} {name : FileName} {content : Bytes}

theorem backupName_inj {s t : String} : backupName dbFileName s = backupName dbFileName t ↔ s = t := by
  simp [backupName]

theorem stampOf_eq_some {suffix : String} : stampOf dbFileName name = some suffix ↔
    name = backupName dbFileName suffix ∧ IsStamp suffix := by
  cases name with
  | utf8 name => simp [stampOf, backupName, localBackupTimestampSuffix_eq_some]
  | other bytes => simp [stampOf, backupName]

theorem mem_stampsOf {suffix : String} : suffix ∈ stampsOf dbFileName folder ↔
    backupName dbFileName suffix ∈ folder.names ∧ IsStamp suffix := by
  simp only [stampsOf, List.mem_filterMap, stampOf_eq_some]
  constructor
  · rintro ⟨name, hname, rfl, hstamp⟩
    exact ⟨hname, hstamp⟩
  · rintro ⟨hname, hstamp⟩
    exact ⟨_, hname, rfl, hstamp⟩

theorem nodup_stampsOf (dbFileName : String) (folder : BackupFolder) :
    (stampsOf dbFileName folder).Nodup := by
  apply List.Nodup.filterMap _ folder.nodup
  intro name name' suffix hname hname'
  rw [(stampOf_eq_some.mp hname).1, (stampOf_eq_some.mp hname').1]

/-- The files of a folder that are not among the named ones. -/
def keepUnless (names : List FileName) (folder : BackupFolder) : BackupFolder where
  entries := folder.entries.filter fun entry => entry.1 ∉ names
  nodup := folder.nodup.sublist (List.filter_sublist.map _)

theorem BackupFolder.ext {folder folder' : BackupFolder} (h : folder.entries = folder'.entries) :
    folder = folder' := by
  cases folder
  cases folder'
  cases h
  rfl

theorem keepUnless_nil (folder : BackupFolder) : keepUnless [] folder = folder := by
  apply BackupFolder.ext
  simp [keepUnless]

theorem keepUnless_remove (names : List FileName) (name : FileName) (folder : BackupFolder) :
    keepUnless names (folder.remove name) = keepUnless (name :: names) folder := by
  apply BackupFolder.ext
  simp [keepUnless, BackupFolder.remove, List.filter_filter, Bool.and_comm]

/-- A rotation in which every deletion succeeds deletes the front of the list. -/
theorem rotateBackups_eq {removes : FileName → Bool} (h : ∀ name, removes name = true)
    (stamps : List String) (folder : BackupFolder) :
    rotateBackups dbFileName removes stamps folder = keepUnless
      ((stamps.take (stamps.length - localDbBackupRetention)).map (backupName dbFileName))
      folder := by
  induction stamps generalizing folder with
  | nil => simp [rotateBackups, keepUnless_nil]
  | cons oldest rest ih =>
    rw [rotateBackups]
    by_cases hmany : localDbBackupRetention < (oldest :: rest).length
    · have htake : (oldest :: rest).length - localDbBackupRetention =
          rest.length - localDbBackupRetention + 1 := by
        rw [List.length_cons] at hmany ⊢
        omega
      rw [if_pos hmany]
      dsimp only
      rw [if_pos (h _), ih, keepUnless_remove, htake, List.take_succ_cons, List.map_cons]
    · rw [if_neg hmany, Nat.sub_eq_zero_of_le (Nat.not_lt.mp hmany), List.take_zero, List.map_nil,
        keepUnless_nil]

theorem remove_eq (h : name ∉ folder.names) : folder.remove name = folder := by
  apply BackupFolder.ext
  simp only [BackupFolder.remove, List.filter_eq_self, decide_eq_true_eq]
  intro entry hentry heq
  rw [← heq] at h
  exact h (List.mem_map_of_mem hentry)

/-- A file that is not in the folder yet is written behind the others. -/
theorem write_eq (h : name ∉ folder.names) :
    (folder.write name content).entries = folder.entries ++ [(name, content)] := by
  change (folder.remove name).entries ++ [(name, content)] = _
  rw [remove_eq h]

theorem stampsOf_keepUnless (stamps : List String) (folder : BackupFolder) :
    stampsOf dbFileName (keepUnless (stamps.map (backupName dbFileName)) folder) =
      (stampsOf dbFileName folder).filter fun stamp => stamp ∉ stamps := by
  simp only [stampsOf, BackupFolder.names, keepUnless, List.filterMap_map, List.filterMap_filter,
    List.filter_filterMap]
  apply List.filterMap_congr
  intro entry _
  cases hstamp : stampOf dbFileName entry.1 with
  | none => simp [hstamp]
  | some stamp =>
    have hname : entry.1 ∈ stamps.map (backupName dbFileName) ↔ stamp ∈ stamps := by
      simp [(stampOf_eq_some.mp hstamp).1, backupName_inj]
    by_cases hmem : stamp ∈ stamps <;> simp [hname, hmem, hstamp, Option.filter]

end Folders

/-! ## One run -/

section OneRun

variable {earliest now : ℤ} {dbFileName : String} {io : BackupIo} {folder : BackupFolder}

/-- The database can be copied and files can be deleted. -/
structure Working (io : BackupIo) : Prop where
  vacuumed : io.vacuumed.isSome = true
  removes : ∀ name, io.removes name = true

/-- A run returns the name of a new backup. -/
def MakesBackup (earliest : ℤ) (dbFileName : String) (now : ℤ) (io : BackupIo)
    (folder : BackupFolder) : Prop :=
  ∃ name, (runLocalDbBackupIfDue earliest (some dbFileName) now io folder).1 = .ok (some name)

/-- What a run leaves that makes a backup: the new file, and of all backups the newest. -/
structure BackupMade (dbFileName : String) (now : ℤ) (folder folder' : BackupFolder) : Prop where
  /-- All backups are older than a day. -/
  due : 0 ≤ now - localDbBackupMinInterval ∧
    ∀ stamp ∈ stampsOf dbFileName folder, stamp < stampAt (now - localDbBackupMinInterval)
  /-- A backup is left where fewer than three are newer. -/
  stamps : ∀ stamp, stamp ∈ stampsOf dbFileName folder' ↔
    stamp ∈ stampsOf dbFileName folder ++ [stampAt now] ∧
      ((stampsOf dbFileName folder ++ [stampAt now]).filter fun newer => stamp < newer).length <
        localDbBackupRetention
  count : (stampsOf dbFileName folder').length =
    min localDbBackupRetention ((stampsOf dbFileName folder).length + 1)
  /-- Other files are left alone. -/
  others : folder'.entries.filter (fun entry => (stampOf dbFileName entry.1).isNone) =
    folder.entries.filter fun entry => (stampOf dbFileName entry.1).isNone
  /-- The backups that are left keep their contents. -/
  kept : ∀ entry ∈ folder'.entries, entry.1 ≠ backupName dbFileName (stampAt now) →
    entry ∈ folder.entries

theorem isNone_stampOf_backupName {stamp : String} (h : IsStamp stamp) :
    (stampOf dbFileName (backupName dbFileName stamp)).isNone = false := by
  rw [stampOf_eq_some.mpr ⟨rfl, h⟩]
  rfl

/-- Where all backups are older than a day, none has the stamp of now. -/
theorem notMem_stampsOf_of_due (hnow : FourDigitYear now)
    (hdue : ∀ stamp ∈ stampsOf dbFileName folder,
      stamp < stampAt (now - localDbBackupMinInterval)) :
    stampAt now ∉ stampsOf dbFileName folder := by
  intro hmem
  have hle : stampAt (now - localDbBackupMinInterval) ≤ stampAt now :=
    stampAt_le (Int.sub_le_self _ (by decide)) hnow
  exact absurd (hdue _ hmem) (not_lt.mpr hle)

theorem notMem_names_of_due (hnow : FourDigitYear now)
    (hdue : ∀ stamp ∈ stampsOf dbFileName folder,
      stamp < stampAt (now - localDbBackupMinInterval)) :
    backupName dbFileName (stampAt now) ∉ folder.names :=
  fun hmem => notMem_stampsOf_of_due hnow hdue (mem_stampsOf.mpr ⟨hmem, isStamp_stampAt hnow⟩)

/-- The folder with a new backup, rotated. -/
theorem backupMade (hnow : FourDigitYear now)
    (hdue : 0 ≤ now - localDbBackupMinInterval ∧
      ∀ stamp ∈ stampsOf dbFileName folder, stamp < stampAt (now - localDbBackupMinInterval))
    (content : Bytes) {removes : FileName → Bool} (hremoves : ∀ name, removes name = true) :
    BackupMade dbFileName now folder (rotateBackups dbFileName removes
      (sorted (sorted (stampsOf dbFileName folder) ++ [stampAt now]))
      (folder.write (backupName dbFileName (stampAt now)) content)) := by
  have hstamp := isStamp_stampAt hnow
  have hnew := notMem_stampsOf_of_due hnow hdue.2
  have hfresh := notMem_names_of_due hnow hdue.2
  have hwritten : stampsOf dbFileName (folder.write (backupName dbFileName (stampAt now)) content) =
      stampsOf dbFileName folder ++ [stampAt now] := by
    simp [stampsOf, BackupFolder.names, write_eq hfresh, stampOf_eq_some.mpr ⟨rfl, hstamp⟩]
  have hsorted : sorted (sorted (stampsOf dbFileName folder) ++ [stampAt now]) =
      sorted (stampsOf dbFileName folder ++ [stampAt now]) :=
    sorted_eq_of_perm (pairwise_sorted _)
      (((sorted_perm _).append_right _).trans (sorted_perm _).symm)
  have hnodup : (stampsOf dbFileName folder ++ [stampAt now]).Nodup := by
    rw [List.nodup_append]
    refine ⟨nodup_stampsOf dbFileName folder, List.nodup_singleton _, ?_⟩
    intro stamp hmem written hwritten heq
    rw [heq, List.mem_singleton.mp hwritten] at hmem
    exact hnew hmem
  have hstale : ∀ stamp ∈ stale localDbBackupRetention
      (stampsOf dbFileName folder ++ [stampAt now]), IsStamp stamp := by
    intro stamp hmem
    rcases List.mem_append.mp (mem_sorted.mp (List.mem_of_mem_take hmem)) with hold | hnow
    · exact (mem_stampsOf.mp hold).2
    · rw [List.mem_singleton.mp hnow]
      exact hstamp
  rw [rotateBackups_eq hremoves, hsorted, length_sorted]
  change BackupMade dbFileName now folder (keepUnless ((stale localDbBackupRetention
    (stampsOf dbFileName folder ++ [stampAt now])).map (backupName dbFileName)) _)
  have hleft : sorted (stampsOf dbFileName (keepUnless ((stale localDbBackupRetention
      (stampsOf dbFileName folder ++ [stampAt now])).map (backupName dbFileName))
      (folder.write (backupName dbFileName (stampAt now)) content))) =
      newest localDbBackupRetention (stampsOf dbFileName folder ++ [stampAt now]) := by
    rw [stampsOf_keepUnless, hwritten, sorted_filter_stale hnodup]
  refine ⟨hdue, ?_, ?_, ?_, ?_⟩
  · intro stamp
    rw [← mem_newest hnodup, ← hleft, mem_sorted]
  · have hlength := congrArg List.length hleft
    rwa [length_sorted, length_newest, List.length_append, List.length_singleton] at hlength
  · simp only [keepUnless, write_eq hfresh, List.filter_filter, List.filter_append]
    have hlast : [(backupName dbFileName (stampAt now), content)].filter (fun entry =>
        (stampOf dbFileName entry.1).isNone && decide (entry.1 ∉ (stale localDbBackupRetention
          (stampsOf dbFileName folder ++ [stampAt now])).map (backupName dbFileName))) = [] := by
      simp [isNone_stampOf_backupName hstamp]
    rw [hlast, List.append_nil]
    apply List.filter_congr
    intro entry _
    by_cases hother : (stampOf dbFileName entry.1).isNone
    · have hout : entry.1 ∉ (stale localDbBackupRetention
          (stampsOf dbFileName folder ++ [stampAt now])).map (backupName dbFileName) := by
        intro hmem
        obtain ⟨stamp, hmem, heq⟩ := List.mem_map.mp hmem
        rw [← heq, isNone_stampOf_backupName (hstale stamp hmem)] at hother
        cases hother
      simp [hother, hout]
    · simp [hother]
  · intro entry hentry hname
    have hmem := List.mem_of_mem_filter hentry
    rw [write_eq hfresh] at hmem
    rcases List.mem_append.mp hmem with hold | hnew
    · exact hold
    · exact absurd (congrArg Prod.fst (List.mem_singleton.mp hnew)) hname

/-- A run that works makes a backup of a name that is new, or leaves the folder as it is. -/
theorem run_outcome (earliest : ℤ) (dbFileName : String) (hnow : FourDigitYear now)
    (hworking : Working io) (folder : BackupFolder) :
    (¬ MakesBackup earliest dbFileName now io folder ∧
      (runLocalDbBackupIfDue earliest (some dbFileName) now io folder).2 = folder) ∨
    (MakesBackup earliest dbFileName now io folder ∧ BackupMade dbFileName now folder
      (runLocalDbBackupIfDue earliest (some dbFileName) now io folder).2) := by
  obtain ⟨content, hcontent⟩ := Option.isSome_iff_exists.mp hworking.vacuumed
  have hstays : ∀ result, (∀ name, result ≠ .ok (some name)) →
      runLocalDbBackupIfDue earliest (some dbFileName) now io folder = (result, folder) →
      (¬ MakesBackup earliest dbFileName now io folder ∧
        (runLocalDbBackupIfDue earliest (some dbFileName) now io folder).2 = folder) := by
    intro result hresult hrun
    rw [MakesBackup, hrun]
    refine ⟨?_, rfl⟩
    rintro ⟨name, hname⟩
    exact hresult name hname
  by_cases hearly : now - localDbBackupMinInterval < earliest
  · refine Or.inl (hstays (.ok none) (by simp) ?_)
    rw [runLocalDbBackupIfDue, if_pos hearly]
  by_cases hlisted : io.listed = true
  swap
  · refine Or.inl (hstays (.error .io) (by simp) ?_)
    rw [runLocalDbBackupIfDue, if_neg hearly, if_pos hlisted]
  by_cases hepoch : 0 ≤ now - localDbBackupMinInterval
  swap
  · refine Or.inl (hstays (.error (.invalidOutputPath "timestamp before unix epoch")) (by simp) ?_)
    rw [runLocalDbBackupIfDue, if_neg hearly, if_neg (not_not.mpr hlisted), formatUtcCompact,
      if_pos (not_le.mp hepoch)]
  have hnonneg : 0 ≤ now := by
    rw [localDbBackupMinInterval, nanosPerSecond] at hepoch
    omega
  have hrun : runLocalDbBackupIfDue earliest (some dbFileName) now io folder =
      if (sorted (stampsOf dbFileName folder)).getLast?.any fun newest =>
        stampAt (now - localDbBackupMinInterval) ≤ newest then (.ok none, folder)
      else makeBackup dbFileName now (sorted (stampsOf dbFileName folder)) io folder := by
    rw [runLocalDbBackupIfDue, if_neg hearly, if_neg (not_not.mpr hlisted),
      formatUtcCompact_of_nonneg hepoch]
  by_cases hrecent : (sorted (stampsOf dbFileName folder)).getLast?.any (fun newest =>
      stampAt (now - localDbBackupMinInterval) ≤ newest) = true
  · refine Or.inl (hstays (.ok none) (by simp) ?_)
    rw [hrun, if_pos hrecent]
  have hdue : ∀ stamp ∈ stampsOf dbFileName folder,
      stamp < stampAt (now - localDbBackupMinInterval) :=
    fun stamp hstamp => lt_of_getLast_lt hrecent hstamp
  by_cases htested : io.tested = true
  swap
  · refine Or.inl (hstays (.error .io) (by simp) ?_)
    rw [hrun, if_neg hrecent, makeBackup, formatUtcCompact_of_nonneg hnonneg]
    exact if_pos htested
  right
  have hfresh := notMem_names_of_due hnow hdue
  have hmade : runLocalDbBackupIfDue earliest (some dbFileName) now io folder =
      (.ok (some (backupName dbFileName (stampAt now))), rotateBackups dbFileName io.removes
        (sorted (sorted (stampsOf dbFileName folder) ++ [stampAt now]))
        (folder.write (backupName dbFileName (stampAt now)) content)) := by
    rw [hrun, if_neg hrecent, makeBackup, formatUtcCompact_of_nonneg hnonneg]
    dsimp only
    rw [if_neg (not_not.mpr htested), if_neg (fun h => hfresh h.1), remove_eq hfresh, hcontent]
  constructor
  · exact ⟨_, congrArg Prod.fst hmade⟩
  · rw [hmade]
    exact backupMade hnow ⟨hepoch, hdue⟩ content hworking.removes

end OneRun

/-! ## Runs -/

/-- A call of the worker. -/
structure BackupCall where
  now : ℤ
  io : BackupIo

/-- The calls that the clock and the disk allow. -/
def BackupCall.Ordinary (call : BackupCall) : Prop := FourDigitYear call.now ∧ Working call.io

/-- The folder after some calls. -/
def runBackups (earliest : ℤ) (dbFileName : String) (calls : List BackupCall)
    (folder : BackupFolder) : BackupFolder :=
  calls.foldl (fun folder call =>
    (runLocalDbBackupIfDue earliest (some dbFileName) call.now call.io folder).2) folder

section Runs

variable {earliest : ℤ} {dbFileName : String} {folder folder' : BackupFolder} {now : ℤ}

/-- The new backup is greater than all others. -/
theorem BackupMade.lt_stampAt (h : BackupMade dbFileName now folder folder')
    (hnow : FourDigitYear now) {stamp : String} (hstamp : stamp ∈ stampsOf dbFileName folder) :
    stamp < stampAt now :=
  lt_of_lt_of_le (h.due.2 stamp hstamp) (stampAt_le (Int.sub_le_self _ (by decide)) hnow)

/-- The new backup stays. -/
theorem BackupMade.mem_stampAt (h : BackupMade dbFileName now folder folder')
    (hnow : FourDigitYear now) : stampAt now ∈ stampsOf dbFileName folder' := by
  have hnone : (stampsOf dbFileName folder ++ [stampAt now]).filter
      (fun newer => stampAt now < newer) = [] := by
    simp only [List.filter_eq_nil_iff, List.mem_append, List.mem_singleton, decide_eq_true_eq,
      not_lt]
    rintro stamp (hold | rfl)
    · exact (h.lt_stampAt hnow hold).le
    · exact le_refl _
  rw [h.stamps, hnone]
  exact ⟨by simp, by decide⟩

/-- The backup that was the newest before stays. -/
theorem BackupMade.mem_newest (h : BackupMade dbFileName now folder folder') {stamp : String}
    (hstamp : stamp ∈ stampsOf dbFileName folder)
    (hnewest : ∀ other ∈ stampsOf dbFileName folder, other ≤ stamp) :
    stamp ∈ stampsOf dbFileName folder' := by
  have hnone : (stampsOf dbFileName folder).filter (fun newer => stamp < newer) = [] := by
    simp only [List.filter_eq_nil_iff, decide_eq_true_eq, not_lt]
    exact hnewest
  rw [h.stamps, List.filter_append, hnone, List.nil_append]
  refine ⟨List.mem_append_left _ hstamp, Nat.lt_of_le_of_lt (List.length_filter_le _ _) ?_⟩
  rw [List.length_singleton, localDbBackupRetention]
  decide

/-- A call leaves a backup that is as new as any before it. -/
theorem exists_newer_of_run {call : BackupCall} (hcall : call.Ordinary) {stamp : String}
    (h : ∃ newer ∈ stampsOf dbFileName folder, stamp ≤ newer) :
    ∃ newer ∈ stampsOf dbFileName
      (runLocalDbBackupIfDue earliest (some dbFileName) call.now call.io folder).2,
      stamp ≤ newer := by
  rcases run_outcome earliest dbFileName hcall.1 hcall.2 folder with ⟨-, hsame⟩ | ⟨-, hmade⟩
  · rwa [hsame]
  · obtain ⟨newer, hnewer, hle⟩ := h
    exact ⟨_, hmade.mem_stampAt hcall.1, hle.trans (hmade.lt_stampAt hcall.1 hnewer).le⟩

theorem exists_newer_of_runs (earliest : ℤ) {calls : List BackupCall} (hcalls : ∀ call ∈ calls, call.Ordinary)
    {stamp : String} (h : ∃ newer ∈ stampsOf dbFileName folder, stamp ≤ newer) :
    ∃ newer ∈ stampsOf dbFileName (runBackups earliest dbFileName calls folder),
      stamp ≤ newer := by
  induction calls generalizing folder with
  | nil => exact h
  | cons call rest ih =>
    exact ih (fun later hlater => hcalls later (List.mem_cons_of_mem _ hlater))
      (exists_newer_of_run (hcalls call List.mem_cons_self) h)

/-- The files that are no backups of this database stay as they are. -/
theorem others_of_runs {calls : List BackupCall} (hcalls : ∀ call ∈ calls, call.Ordinary) :
    (runBackups earliest dbFileName calls folder).entries.filter
        (fun entry => (stampOf dbFileName entry.1).isNone) =
      folder.entries.filter fun entry => (stampOf dbFileName entry.1).isNone := by
  induction calls generalizing folder with
  | nil => rfl
  | cons call rest ih =>
    refine (ih fun later hlater => hcalls later (List.mem_cons_of_mem _ hlater)).trans ?_
    obtain ⟨hnow, hworking⟩ := hcalls call List.mem_cons_self
    dsimp only
    rcases run_outcome earliest dbFileName hnow hworking folder with ⟨-, hsame⟩ | ⟨-, hmade⟩
    · rw [hsame]
    · exact hmade.others

/-- Two backups of one run are more than a day apart. -/
theorem day_between_backups {first last : BackupCall} {between : List BackupCall}
    (hfirst : first.Ordinary) (hbetween : ∀ call ∈ between, call.Ordinary) (hlast : last.Ordinary)
    (hmade : MakesBackup earliest dbFileName first.now first.io folder)
    (hagain : MakesBackup earliest dbFileName last.now last.io
      (runBackups earliest dbFileName (first :: between) folder)) :
    first.now + localDbBackupMinInterval < last.now := by
  rcases run_outcome earliest dbFileName hfirst.1 hfirst.2 folder with ⟨hnot, -⟩ | ⟨-, hstep⟩
  · exact absurd hmade hnot
  obtain ⟨newer, hnewer, hle⟩ := exists_newer_of_runs earliest hbetween
    ⟨_, hstep.mem_stampAt hfirst.1, le_refl _⟩
  rcases run_outcome earliest dbFileName hlast.1 hlast.2
    (runBackups earliest dbFileName (first :: between) folder) with ⟨hnot, -⟩ | ⟨-, hstepLast⟩
  · exact absurd hagain hnot
  have hless := lt_of_stampAt_lt (lt_of_le_of_lt hle (hstepLast.due.2 newer hnewer)) hfirst.1
  have hepoch := hstepLast.due.1
  rw [nanosPerSecond] at hless
  omega

/-- The local backups rotate safely: the stamps are dates in the order of their seconds, each run
makes one backup when all are older than a day and keeps the newest three, and over every run no
two backups are made within a day of each other and no other file is touched. -/
theorem local_backups_rotate (earliest : ℤ) (dbFileName : String) :
    (∀ a : Date, civilFromDays (a.dayNumber - 719528) = ((a.year : ℤ), a.month, a.day)) ∧
    (∀ days : ℕ, ∃ a : Date, a.dayNumber = days + 719528) ∧
    (∀ time, 0 ≤ time → FourDigitYear time → formatUtcCompact time = .ok (stampAt time) ∧
      localBackupTimestampSuffix (dbFileName ++ ".bak." ++ stampAt time) dbFileName =
        some (stampAt time)) ∧
    (∀ s t : ℤ, 0 ≤ s → s / nanosPerSecond < t / nanosPerSecond → FourDigitYear t →
      stampAt s < stampAt t) ∧
    (∀ (call : BackupCall) (folder : BackupFolder), call.Ordinary →
      (¬ MakesBackup earliest dbFileName call.now call.io folder ∧
        (runLocalDbBackupIfDue earliest (some dbFileName) call.now call.io folder).2 = folder) ∨
      (MakesBackup earliest dbFileName call.now call.io folder ∧
        BackupMade dbFileName call.now folder
          (runLocalDbBackupIfDue earliest (some dbFileName) call.now call.io folder).2 ∧
        stampAt call.now ∈ stampsOf dbFileName
          (runLocalDbBackupIfDue earliest (some dbFileName) call.now call.io folder).2 ∧
        ∀ stamp ∈ stampsOf dbFileName folder,
          (∀ other ∈ stampsOf dbFileName folder, other ≤ stamp) → stamp ∈ stampsOf dbFileName
            (runLocalDbBackupIfDue earliest (some dbFileName) call.now call.io folder).2)) ∧
    (∀ (first : BackupCall) (between : List BackupCall) (last : BackupCall)
      (folder : BackupFolder), (∀ call ∈ first :: (between ++ [last]), call.Ordinary) →
      MakesBackup earliest dbFileName first.now first.io folder →
      MakesBackup earliest dbFileName last.now last.io
        (runBackups earliest dbFileName (first :: between) folder) →
      first.now + localDbBackupMinInterval < last.now) ∧
    (∀ (calls : List BackupCall) (folder : BackupFolder), (∀ call ∈ calls, call.Ordinary) →
      (runBackups earliest dbFileName calls folder).entries.filter
          (fun entry => (stampOf dbFileName entry.1).isNone) =
        folder.entries.filter fun entry => (stampOf dbFileName entry.1).isNone) := by
  refine ⟨civilFromDays_dayNumber, fun days => Date.exists_dayNumber_eq _, ?_, ?_, ?_, ?_, ?_⟩
  · intro time hepoch hyear
    exact ⟨formatUtcCompact_of_nonneg hepoch,
      localBackupTimestampSuffix_eq_some.mpr ⟨rfl, isStamp_stampAt hyear⟩⟩
  · intro s t hs hless ht
    apply stampAt_lt _ ht
    rw [nanosPerSecond] at hless ⊢
    omega
  · intro call folder hcall
    rcases run_outcome earliest dbFileName hcall.1 hcall.2 folder with hsame | ⟨hmakes, hmade⟩
    · exact Or.inl hsame
    · exact Or.inr ⟨hmakes, hmade, hmade.mem_stampAt hcall.1, fun stamp => hmade.mem_newest⟩
  · intro first between last folder hcalls hmade hagain
    apply day_between_backups (hcalls first List.mem_cons_self) _ (hcalls last (by simp)) hmade
      hagain
    intro call hcall
    exact hcalls call (by simp [hcall])
  · intro calls folder hcalls
    exact others_of_runs hcalls

theorem local_backups_rotate_2023 :
    localBackupTimestampSuffix ("omnidrive.db" ++ ".bak." ++ stampAt 0) "omnidrive.db" =
        some (stampAt 0) ∧
      stampAt 0 < stampAt (1700000000 * nanosPerSecond) := by
  obtain ⟨-, -, hformat, horder, -⟩ := local_backups_rotate 0 "omnidrive.db"
  exact ⟨(hformat 0 (le_refl 0) (by decide)).2,
    horder 0 (1700000000 * nanosPerSecond) (le_refl 0) (by decide) (by decide)⟩

end Runs

end Backup

end OmniDrive
