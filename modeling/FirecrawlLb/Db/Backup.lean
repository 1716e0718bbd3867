import FirecrawlLb.Lib.Run
import FirecrawlLb.Python.Decimals
import Mathlib.Data.List.Chain
import Mathlib.Data.List.Infix
import Mathlib.Data.List.Sort
import Mathlib.Data.Option.Basic

/-!
# Backups before a migration

`create_sqlite_pre_migration_backup` copies the database to a name made of the second of the call,
with a number behind it when the name is taken, and deletes the first names of the sorted listing
beyond `max_files`.  The order of the names is that of creation from one second to the next
(`name_lt_of_timestamp_lt`), but not within a second: `-1.db` comes before `.db`, and `-10` before
`-2`.  So the newest backups are kept exactly as long as the oldest one sorts before the others of
its second (`keepsNewest_iff`).
-/

namespace FirecrawlLb.Db.Backup

open FirecrawlLb.Lib.Run FirecrawlLb.Python

/-- A file name. -/
abbrev Name := List Char

/-! ### Patterns of file names -/

/-- A part of a pattern. -/
inductive GlobPart where
  | star
  | any
  | charClass (body : List Char)
  | lit (c : Char)

/-- The character `c` in front, when it is there, and the rest. -/
def splitFirst (c : Char) : List Char → List Char × List Char
  | d :: ds => if d = c then ([d], ds) else ([], d :: ds)
  | [] => ([], [])

/-- The body of a character class that has been opened, and what follows it. -/
def closeClass (cs : List Char) : Option (List Char × List Char) :=
  let (negation, cs) := splitFirst '!' cs
  let (first, cs) := splitFirst ']' cs
  match cs.dropWhile (· ≠ ']') with
  | _ :: rest => some (negation ++ first ++ cs.takeWhile (· ≠ ']'), rest)
  | [] => none

/-- The parts of a pattern; the number bounds its length. -/
def globParts : ℕ → List Char → List GlobPart
  | 0, _ => []
  | _ + 1, [] => []
  | fuel + 1, c :: cs =>
    match c with
    | '*' => .star :: globParts fuel cs
    | '?' => .any :: globParts fuel cs
    | '[' =>
      match closeClass cs with
      | some (body, rest) => .charClass body :: globParts fuel rest
      | none => .lit '[' :: globParts fuel cs
    | c => .lit c :: globParts fuel cs

/-- A character is one of those listed, or in one of the ranges. -/
def inRanges (x : Char) : List Char → Bool
  | a :: '-' :: b :: rest => (a ≤ x && x ≤ b) || inRanges x rest
  | a :: rest => a = x || inRanges x rest
  | [] => false

/-- `[seq]` and `[!seq]` -/
def inClass (x : Char) : List Char → Bool
  | '!' :: ranges => !inRanges x ranges
  | ranges => inRanges x ranges

/-- A name has the parts of the pattern, one after another. -/
def matchParts : List GlobPart → Name → Bool
  | [], cs => cs.isEmpty
  | .star :: parts, cs => cs.tails.any (matchParts parts)
  | .any :: parts, _ :: cs => matchParts parts cs
  | .charClass body :: parts, c :: cs => inClass c body && matchParts parts cs
  | .lit d :: parts, c :: cs => c = d && matchParts parts cs
  | _ :: _, [] => false

/-- `parent.glob(pattern)` gives the name. -/
def globMatch (pattern name : List Char) : Bool :=
  matchParts (globParts pattern.length pattern) name

example : globMatch "a?[0-9].*".toList "ab7.db".toList = true ∧
    globMatch "a[1]".toList "a[1]".toList = false := by decide

/-! ### Names of backups -/

/-- `path` is `str(source)`; the name of the file is its stem and its suffix. -/
structure Source where
  path : String
  stem : Name
  suffix : Name
  suffix_eq : suffix = [] ∨ ∃ extension, suffix = '.' :: extension

/-- What `strftime` reads of a time: its calendar, to the second. -/
structure Timestamp where
  year : Fin 10000
  month : Fin 13
  day : Fin 32
  hour : Fin 24
  minute : Fin 60
  second : Fin 60

namespace Timestamp

/-- The numbers by which times compare. -/
def fields (t : Timestamp) : List ℕ := [t.year, t.month, t.day, t.hour, t.minute, t.second]

theorem fields_injective : Function.Injective fields := by
  rintro ⟨⟩ ⟨⟩ h
  simpa [fields, Fin.ext_iff] using h

instance : LinearOrder Timestamp := LinearOrder.lift' fields fields_injective

/-- `timestamp.strftime('%Y%m%dT%H%M%SZ')` -/
def strftime (t : Timestamp) : List Char :=
  zeroFilled 4 t.year ++ (zeroFilled 2 t.month ++ (zeroFilled 2 t.day ++ 'T' ::
    (zeroFilled 2 t.hour ++ (zeroFilled 2 t.minute ++ (zeroFilled 2 t.second ++ ['Z'])))))

@[simp] theorem length_strftime (t : Timestamp) : t.strftime.length = 16 := by simp [strftime]

/-- The fields are as wide as their numbers, so the texts compare as the times do. -/
theorem strftime_lt_iff {t u : Timestamp} : t.strftime < u.strftime ↔ t < u := by
  have hwide : ∀ t : Timestamp, (t.year : ℕ) < 10000 ∧ (t.month : ℕ) < 100 ∧ (t.day : ℕ) < 100 ∧
      (t.hour : ℕ) < 100 ∧ (t.minute : ℕ) < 100 ∧ (t.second : ℕ) < 100 := by
    rintro ⟨year, month, day, hour, minute, second⟩
    dsimp only
    omega
  obtain ⟨hy, hmo, hd, hh, hmi, hs⟩ := hwide t
  obtain ⟨hy', hmo', hd', hh', hmi', hs'⟩ := hwide u
  have hfields : t < u ↔ t.fields < u.fields := Iff.rfl
  rw [hfields]
  simp [strftime, fields, append_lt_append_iff, List.cons_lt_cons_iff,
    zeroFilled_lt_iff_of_lt, zeroFilled_eq_iff, hy, hy', hmo, hmo', hd, hd', hh, hh', hmi, hmi',
    hs, hs']

theorem strftime_injective : Function.Injective strftime := by
  intro t u h
  by_contra hne
  rcases lt_or_gt_of_ne hne with hlt | hlt
  · exact (strftime_lt_iff.2 hlt).ne h
  · exact (strftime_lt_iff.2 hlt).ne h.symm

end Timestamp

/-- What stands between the time and the suffix: nothing, or the number of a name. -/
def sequenceText : ℕ → List Char
  | 0 => []
  | sequence + 1 => '-' :: decimal (sequence + 1)

/-- The names of `_next_backup_path`: that of `_backup_name` first, then the numbered ones. -/
def candidate (source : Source) (timestamp : Timestamp) (sequence : ℕ) : Name :=
  source.stem ++ (".pre-migrate-".toList ++ (timestamp.strftime ++
    (sequenceText sequence ++ source.suffix)))

/-- A backup in the directory of the database, and the number of the call that made it. -/
structure BackupFile where
  call : ℕ
  timestamp : Timestamp
  sequence : ℕ

def BackupFile.name (source : Source) (backup : BackupFile) : Name :=
  candidate source backup.timestamp backup.sequence

section Names

variable {source : Source} {t u : Timestamp} {m n : ℕ} {b c : BackupFile}

theorem sequenceText_injective : Function.Injective sequenceText := by
  intro m n h
  cases m with
  | zero =>
    cases n with
    | zero => rfl
    | succ n => cases h
  | succ m =>
    cases n with
    | zero => cases h
    | succ n => exact decimal_injective (List.cons.inj h).2

theorem candidate_lt_iff : candidate source t m < candidate source u n ↔
    t < u ∨ t = u ∧ sequenceText m ++ source.suffix < sequenceText n ++ source.suffix := by
  unfold candidate
  rw [append_left_lt_iff, append_left_lt_iff, append_lt_append_iff (by simp),
    Timestamp.strftime_lt_iff, Timestamp.strftime_injective.eq_iff]

theorem candidate_inj : candidate source t m = candidate source u n ↔ t = u ∧ m = n := by
  constructor
  · intro h
    have hrest := List.append_cancel_left (List.append_cancel_left h)
    obtain ⟨htime, hseq⟩ := List.append_inj hrest (by simp)
    exact ⟨Timestamp.strftime_injective htime,
      sequenceText_injective (List.append_cancel_right hseq)⟩
  · rintro ⟨rfl, rfl⟩
    rfl

theorem name_inj : b.name source = c.name source ↔
    b.timestamp = c.timestamp ∧ b.sequence = c.sequence := candidate_inj

/-- **From one second to the next** the names sort as they are made. -/
theorem name_lt_of_timestamp_lt (h : b.timestamp < c.timestamp) : b.name source < c.name source :=
  candidate_lt_iff.2 (Or.inl h)

/-- **Within a second** the plain name comes before the numbered ones exactly if the names have no
suffix: a hyphen comes before a dot. -/
theorem plain_lt_iff (h : b.timestamp = c.timestamp) (hb : b.sequence = 0) (hc : c.sequence ≠ 0) :
    b.name source < c.name source ↔ source.suffix = [] := by
  obtain ⟨n, hn⟩ := Nat.exists_eq_succ_of_ne_zero hc
  rw [BackupFile.name, BackupFile.name, candidate_lt_iff, h, hb, hn]
  simp only [lt_irrefl, false_or, true_and, sequenceText, List.nil_append, List.cons_append]
  rcases source.suffix_eq with hsuffix | ⟨extension, hsuffix⟩
  · simp [hsuffix]
  · have hdot : ¬ ('.' : Char) < '-' := by decide
    simp [hsuffix, List.cons_lt_cons_iff, hdot]

end Names

/-! ### The directory -/

/-- The directory of the database: whether the database is there, how many backups have been made,
and those left, in the order of their creation. -/
structure Directory where
  hasSource : Bool
  calls : ℕ
  files : List BackupFile

inductive BackupError where
  | valueError (message : String)
  | fileNotFoundError (message : String)

/-- `candidate.exists()` -/
def Directory.has (source : Source) (directory : Directory) (name : Name) : Bool :=
  directory.files.any fun backup => backup.name source = name

/-- The first free name of `_next_backup_path`: among one more than there are files. -/
def nextSequence (source : Source) (timestamp : Timestamp) (directory : Directory) : ℕ :=
  ((List.range (directory.files.length + 1)).find? fun sequence =>
    !directory.has source (candidate source timestamp sequence)).getD 0

/-- The pattern of `list_sqlite_pre_migration_backups` -/
def pattern (source : Source) : List Char :=
  source.stem ++ (".pre-migrate-".toList ++ '*' :: source.suffix)

def Listed (source : Source) (backup : BackupFile) : Prop :=
  globMatch (pattern source) (backup.name source) = true

instance (source : Source) : DecidablePred (Listed source) := fun _ =>
  inferInstanceAs (Decidable (_ = true))

/-- `list_sqlite_pre_migration_backups` -/
def listSqlitePreMigrationBackups (source : Source) (files : List BackupFile) :
    List BackupFile :=
  (files.filter (Listed source)).insertionSort fun a b => a.name source ≤ b.name source

/-- What is left of the files when `backups[:excess]` are unlinked. -/
def unlinkExcess (source : Source) (maxFiles : ℤ) (files : List BackupFile) : List BackupFile :=
  let backups := listSqlitePreMigrationBackups source files
  let excess := backups.length - maxFiles
  files.filter fun file => (backups.take excess.toNat).all fun old =>
    old.name source ≠ file.name source

/-- `_next_backup_path` -/
def nextBackup (source : Source) (now : Timestamp) (directory : Directory) : BackupFile :=
  ⟨directory.calls, now, nextSequence source now directory⟩

/-- `create_sqlite_pre_migration_backup`: the name it returns, and the directory after it. -/
def createSqlitePreMigrationBackup (source : Source) (maxFiles : ℤ) (now : Timestamp)
    (directory : Directory) : Except BackupError (Name × Directory) :=
  if maxFiles < 1 then .error (.valueError "max_files must be >= 1")
  else if !directory.hasSource then
    .error (.fileNotFoundError ("sqlite database not found: " ++ source.path))
  else
    let backup := nextBackup source now directory
    .ok (backup.name source,
      { directory with
        calls := directory.calls + 1
        files := unlinkExcess source maxFiles (directory.files ++ [backup]) })

/-- One call, as a step of the directory. -/
def step (source : Source) (maxFiles : ℤ) (directory : Directory) (now : Timestamp) :
    Option Directory :=
  (createSqlitePreMigrationBackup source maxFiles now directory).toOption.map Prod.snd

/-- The database alone. -/
def Directory.fresh : Directory := ⟨true, 0, []⟩

/-- The files left are those of the last `maxFiles` calls, or of all calls. -/
def KeepsNewest (maxFiles : ℤ) (directory : Directory) : Prop :=
  directory.files.map (·.call) =
    (List.range directory.calls).drop (directory.calls - maxFiles.toNat)

/-- The path that is returned exists. -/
def ReturnsExisting (source : Source) (maxFiles : ℤ) (directory : Directory) (now : Timestamp) :
    Prop :=
  ∀ name directory', createSqlitePreMigrationBackup source maxFiles now directory =
    .ok (name, directory') → directory'.has source name = true

/-- Nothing is deleted yet, or what is deleted is the oldest backup: the pattern gives all of them,
the oldest sorts before the others of its second, and a call in this second too finds it under the
plain name, with no suffix. -/
def DeletesOldest (source : Source) (maxFiles : ℤ) (directory : Directory) (now : Timestamp) :
    Prop :=
  directory.files.length < maxFiles ∨
    (∀ file ∈ directory.files ++ [nextBackup source now directory], Listed source file) ∧
    ∀ oldest ∈ directory.files.head?,
      (∀ file ∈ directory.files.tail, file.timestamp = oldest.timestamp →
        oldest.name source < file.name source) ∧
      (now = oldest.timestamp → source.suffix = [] ∧ oldest.sequence = 0)

instance (source : Source) (maxFiles : ℤ) (directory : Directory) (now : Timestamp) :
    Decidable (DeletesOldest source maxFiles directory now) :=
  inferInstanceAs (Decidable (_ ∨ _ ∧ ∀ oldest ∈ _, _ ∧ (_ → _)))

variable {source : Source} {maxFiles : ℤ} {directory directory' : Directory} {now : Timestamp}
  {file oldest : BackupFile} {files rest : List BackupFile}

/-! ### The free name -/

theorem has_candidate_iff {timestamp : Timestamp} {sequence : ℕ} :
    directory.has source (candidate source timestamp sequence) = true ↔
      ∃ file ∈ directory.files, file.timestamp = timestamp ∧ file.sequence = sequence := by
  simp [Directory.has, BackupFile.name, candidate_inj]

/-- **The number is the least that is free**: fewer names are taken than are tried. -/
theorem nextSequence_spec (source : Source) (timestamp : Timestamp) (directory : Directory) :
    (∀ file ∈ directory.files, file.timestamp = timestamp →
      file.sequence ≠ nextSequence source timestamp directory) ∧
    ∀ sequence < nextSequence source timestamp directory,
      ∃ file ∈ directory.files, file.timestamp = timestamp ∧ file.sequence = sequence := by
  have hsome : ∃ n, (List.range (directory.files.length + 1)).find? (fun sequence =>
      !directory.has source (candidate source timestamp sequence)) = some n := by
    by_contra hnone
    have htaken : ∀ n < directory.files.length + 1,
        ∃ file ∈ directory.files, file.timestamp = timestamp ∧ file.sequence = n := by
      simpa [Option.eq_none_iff_forall_ne_some.2 (not_exists.1 hnone), has_candidate_iff] using
        List.find?_range_eq_none.1 (Option.eq_none_iff_forall_ne_some.2 (not_exists.1 hnone))
    have hsub : List.range (directory.files.length + 1) ⊆ directory.files.map (·.sequence) := by
      intro n hn
      obtain ⟨file, hfile, -, rfl⟩ := htaken n (List.mem_range.1 hn)
      exact List.mem_map_of_mem hfile
    have hlen := (List.subperm_of_subset List.nodup_range hsub).length_le
    rw [List.length_range, List.length_map] at hlen
    omega
  obtain ⟨n, hn⟩ := hsome
  obtain ⟨hfree, -, htaken⟩ := List.find?_range_eq_some.1 hn
  have hnext : nextSequence source timestamp directory = n := by rw [nextSequence, hn]; rfl
  rw [hnext]
  constructor
  · intro file hfile htime hseq
    have hhas : directory.has source (candidate source timestamp _) = true :=
      has_candidate_iff.2 ⟨file, hfile, htime, hseq⟩
    simp [hhas] at hfree
  · intro sequence hlt
    have hhas : directory.has source (candidate source timestamp sequence) = true := by
      simpa using htaken sequence hlt
    exact has_candidate_iff.1 hhas

/-! ### What is unlinked -/

theorem length_listSqlitePreMigrationBackups (source : Source) (files : List BackupFile) :
    (listSqlitePreMigrationBackups source files).length =
      (files.filter (Listed source)).length := by
  rw [listSqlitePreMigrationBackups, List.length_insertionSort]

theorem unlinkExcess_of_few (h : ((files.filter (Listed source)).length : ℤ) ≤ maxFiles) :
    unlinkExcess source maxFiles files = files := by
  have hexcess : ((files.filter (Listed source)).length - maxFiles).toNat = 0 := by omega
  unfold unlinkExcess
  dsimp only
  rw [length_listSqlitePreMigrationBackups, hexcess]
  simp

theorem unlinkExcess_of_length_le (h : (files.length : ℤ) ≤ maxFiles) :
    unlinkExcess source maxFiles files = files := by
  have hle := List.length_filter_le (fun file => decide (Listed source file)) files
  exact unlinkExcess_of_few (by omega)

/-- When all files are given and one is too many, the first of the sorted names goes. -/
theorem unlinkExcess_of_listed (hmax : (files.length : ℤ) = maxFiles + 1)
    (hlisted : ∀ file ∈ files, Listed source file) :
    unlinkExcess source maxFiles files = files.filter fun file =>
      ((files.insertionSort fun a b => a.name source ≤ b.name source).take 1).all fun old =>
        old.name source ≠ file.name source := by
  have hall : files.filter (Listed source) = files :=
    List.filter_eq_self.2 fun file hfile => decide_eq_true (hlisted file hfile)
  have hexcess : (files.length - maxFiles).toNat = 1 := by omega
  unfold unlinkExcess listSqlitePreMigrationBackups
  dsimp only
  rw [hall, List.length_insertionSort, hexcess]

/-- **Exactly the oldest is deleted** if and only if the pattern gives all files and the oldest
sorts before the others. -/
theorem unlinkExcess_eq_tail_iff (hmax : (rest.length : ℤ) = maxFiles)
    (hnames : (oldest :: rest).Pairwise fun a b => a.name source ≠ b.name source) :
    unlinkExcess source maxFiles (oldest :: rest) = rest ↔
      (∀ file ∈ oldest :: rest, Listed source file) ∧
        ∀ file ∈ rest, oldest.name source < file.name source := by
  obtain ⟨hold, -⟩ := List.pairwise_cons.1 hnames
  have hlength : ((oldest :: rest).length : ℤ) = maxFiles + 1 := by
    rw [List.length_cons]
    omega
  constructor
  · intro h
    have hlisted : ∀ file ∈ oldest :: rest, Listed source file := by
      by_contra hsome
      -- a file that the pattern misses is not counted, and then nothing is deleted
      have hlt : ((oldest :: rest).filter (Listed source)).length < (oldest :: rest).length :=
        List.length_filter_lt_length_iff_exists.2
          (by simpa only [not_forall, decide_eq_true_eq, exists_prop] using hsome)
      rw [unlinkExcess_of_few (by omega)] at h
      exact absurd (congrArg List.length h) (by simp)
    refine ⟨hlisted, fun file hfile => lt_of_le_of_ne ?_ (hold file hfile)⟩
    rw [unlinkExcess_of_listed hlength hlisted] at h
    have hsorted := List.pairwise_insertionSort
      (fun a b : BackupFile => a.name source ≤ b.name source) (oldest :: rest)
    have hmem : file ∈ (oldest :: rest).insertionSort fun a b => a.name source ≤ b.name source :=
      (List.mem_insertionSort _).2 (List.mem_cons_of_mem _ hfile)
    cases hsort : (oldest :: rest).insertionSort fun a b => a.name source ≤ b.name source with
    | nil => simp [hsort] at hmem
    | cons first others =>
      rw [hsort] at h hsorted hmem
      have hfirst : first.name source = oldest.name source := by
        by_contra hne
        -- another name sorts first and goes, so the oldest stays
        have hkept : oldest ∈ rest := by
          rw [← h]
          simp [hne]
        exact hold oldest hkept rfl
      rw [← hfirst]
      rcases List.mem_cons.1 hmem with rfl | hmem
      · exact le_rfl
      · exact (List.pairwise_cons.1 hsorted).1 file hmem
  · rintro ⟨hlisted, hfirst⟩
    have hsort := List.insertionSort_cons_of_forall_rel
      (fun a b : BackupFile => a.name source ≤ b.name source) (a := oldest) (l := rest)
      fun file hfile => (hfirst file hfile).le
    rw [unlinkExcess_of_listed hlength hlisted, hsort]
    simpa using hold

/-! ### Runs -/

/-- What the directories have in common as long as the oldest backup is the one deleted.  A second
starts with the plain name; only that of the oldest backup may have lost it. -/
structure Kept (source : Source) (maxFiles : ℤ) (directory : Directory) : Prop where
  hasSource : directory.hasSource = true
  few : directory.files.length ≤ maxFiles
  sorted : directory.files.Pairwise fun a b => a.timestamp ≤ b.timestamp
  names : directory.files.Pairwise fun a b => a.name source ≠ b.name source
  opened : directory.files.IsChain fun a b => a.timestamp ≠ b.timestamp → b.sequence = 0
  plain : ∀ oldest ∈ directory.files.head?, oldest.sequence = 0 ∨
    source.suffix = [] ∧ maxFiles ≤ directory.files.length ∧
      ∀ file ∈ directory.files, file.timestamp = oldest.timestamp → file.sequence ≠ 0

theorem step_eq (hmax : 1 ≤ maxFiles) (hsource : directory.hasSource = true) :
    step source maxFiles directory now = some
      { directory with
        calls := directory.calls + 1
        files := unlinkExcess source maxFiles
          (directory.files ++ [nextBackup source now directory]) } := by
  simp only [step, createSqlitePreMigrationBackup, if_neg (not_lt.2 hmax), hsource]
  rfl

/-- **The oldest backup sorts first** under what a call can know. -/
theorem oldest_first_iff (hkept : Kept source maxFiles directory)
    (hnow : ∀ file ∈ directory.files, file.timestamp ≤ now)
    (hfiles : directory.files = oldest :: rest) :
    (∀ file ∈ rest ++ [nextBackup source now directory],
      oldest.name source < file.name source) ↔
      (∀ file ∈ rest, file.timestamp = oldest.timestamp →
        oldest.name source < file.name source) ∧
      (now = oldest.timestamp → source.suffix = [] ∧ oldest.sequence = 0) := by
  obtain ⟨hfree, htaken⟩ := nextSequence_spec source now directory
  have hsorted := hkept.sorted
  rw [hfiles] at hsorted hnow hfree htaken
  rw [List.forall_mem_append, List.forall_mem_singleton]
  refine and_congr ?_ ?_
  · refine forall₂_congr fun file hfile => ⟨fun h _ => h, fun h => ?_⟩
    rcases ((List.pairwise_cons.1 hsorted).1 file hfile).lt_or_eq with hlt | heq
    · exact name_lt_of_timestamp_lt hlt
    · exact h heq.symm
  · rcases (hnow oldest List.mem_cons_self).lt_or_eq with hlt | heq
    · have hname : oldest.name source < (nextBackup source now directory).name source :=
        name_lt_of_timestamp_lt hlt
      exact iff_of_true hname fun h => absurd h hlt.ne'
    · rcases hkept.plain oldest (by rw [hfiles]; rfl) with hzero | ⟨hsuffix, -, hlost⟩
      · have hnumbered : (nextBackup source now directory).sequence ≠ 0 := fun h =>
          hfree oldest List.mem_cons_self heq (hzero.trans h.symm)
        rw [plain_lt_iff heq hzero hnumbered]
        exact ⟨fun h _ => ⟨h, hzero⟩, fun h => (h heq.symm).1⟩
      · rw [hfiles] at hlost
        have hzero : (nextBackup source now directory).sequence = 0 := by
          by_contra hne
          obtain ⟨file, hfile, htime, hseq⟩ := htaken 0 (Nat.pos_of_ne_zero hne)
          exact hlost file hfile (htime.trans heq.symm) hseq
        have hold : oldest.sequence ≠ 0 := hlost oldest List.mem_cons_self rfl
        have hlt := (plain_lt_iff (b := nextBackup source now directory) heq.symm hzero hold).2
          hsuffix
        exact iff_of_false hlt.asymm fun h => hold (h heq.symm).2

section Calls

variable {calls size : ℕ}

theorem drop_range_eq_cons (h : size ≤ calls) :
    (List.range (calls + 1)).drop (calls - size) =
      (calls - size) :: (List.range (calls + 1)).drop (calls + 1 - size) := by
  have hlt : calls - size < (List.range (calls + 1)).length := by
    rw [List.length_range]
    omega
  have hcons := List.drop_eq_getElem_cons hlt
  rwa [List.getElem_range, show calls - size + 1 = calls + 1 - size by omega] at hcons

theorem KeepsNewest.length (h : KeepsNewest maxFiles directory) :
    directory.files.length = min directory.calls maxFiles.toNat := by
  have hlength := congrArg List.length h
  simp only [List.length_map, List.length_drop, List.length_range] at hlength
  omega

theorem KeepsNewest.concat (h : KeepsNewest maxFiles directory)
    (hfew : directory.files.length < maxFiles) : KeepsNewest maxFiles
      { directory with
        calls := directory.calls + 1
        files := directory.files ++ [nextBackup source now directory] } := by
  have hlength := h.length
  have hzero : directory.calls - maxFiles.toNat = 0 := by omega
  have hzero' : directory.calls + 1 - maxFiles.toNat = 0 := by omega
  unfold KeepsNewest at h ⊢
  rw [hzero, List.drop_zero] at h
  simp only [List.map_append, h, hzero', List.range_succ, List.drop_zero]
  rfl

theorem KeepsNewest.concat_iff (h : KeepsNewest maxFiles directory) (hmax : 1 ≤ maxFiles)
    (hfiles : directory.files = oldest :: rest) (hfull : (directory.files.length : ℤ) = maxFiles)
    (hleft : files.Sublist (oldest :: (rest ++ [nextBackup source now directory]))) :
    KeepsNewest maxFiles { directory with calls := directory.calls + 1, files := files } ↔
      files = rest ++ [nextBackup source now directory] := by
  have hlength := h.length
  unfold KeepsNewest at h ⊢
  have hcalls : (oldest :: (rest ++ [nextBackup source now directory])).map (·.call) =
      (directory.calls - maxFiles.toNat) ::
        (List.range (directory.calls + 1)).drop (directory.calls + 1 - maxFiles.toNat) := by
    rw [← drop_range_eq_cons (by omega), List.range_succ,
      List.drop_append_of_le_length (by simp), ← h, hfiles]
    simp [nextBackup]
  obtain ⟨hold, hnewest⟩ := List.cons.inj hcalls
  constructor
  · intro hmap
    have hsame : files.map (·.call) =
        (rest ++ [nextBackup source now directory]).map (·.call) := hmap.trans hnewest.symm
    cases hleft with
    | cons _ hleft => exact hleft.eq_of_length (by simpa using congrArg List.length hsame)
    | cons_cons _ hleft =>
      have hmem : directory.calls - maxFiles.toNat ∈
          (List.range (directory.calls + 1)).drop (directory.calls + 1 - maxFiles.toNat) := by
        rw [← hnewest, ← hsame, ← hold]
        exact List.mem_cons_self
      have hnodup : ((directory.calls - maxFiles.toNat) ::
          (List.range (directory.calls + 1)).drop
            (directory.calls + 1 - maxFiles.toNat)).Nodup := by
        rw [← drop_range_eq_cons (by omega)]
        exact List.nodup_range.sublist (List.drop_sublist _ _)
      exact absurd hmem (List.nodup_cons.1 hnodup).1
  · rintro rfl
    exact hnewest

end Calls

theorem Kept.names_concat (hkept : Kept source maxFiles directory) :
    (directory.files ++ [nextBackup source now directory]).Pairwise
      fun a b => a.name source ≠ b.name source := by
  refine List.pairwise_append.2 ⟨hkept.names, List.pairwise_singleton _ _, fun file hfile => ?_⟩
  intro new hnew hname
  obtain rfl := List.mem_singleton.1 hnew
  obtain ⟨htime, hseq⟩ := name_inj.1 hname
  exact (nextSequence_spec source now directory).1 file hfile htime hseq

theorem returnsExisting_iff (hmax : 1 ≤ maxFiles) (hkept : Kept source maxFiles directory) :
    ReturnsExisting source maxFiles directory now ↔
      nextBackup source now directory ∈ unlinkExcess source maxFiles
        (directory.files ++ [nextBackup source now directory]) := by
  simp only [ReturnsExisting, createSqlitePreMigrationBackup, if_neg (not_lt.2 hmax),
    hkept.hasSource, Bool.not_true, Bool.false_eq_true, if_false, Except.ok.injEq, Prod.mk.injEq]
  constructor
  · intro h
    have hhas := h _ _ ⟨rfl, rfl⟩
    simp only [Directory.has, List.any_eq_true, decide_eq_true_eq] at hhas
    obtain ⟨file, hfile, hname⟩ := hhas
    have hmem : file ∈ directory.files ++ [nextBackup source now directory] :=
      List.mem_of_mem_filter hfile
    rcases List.mem_append.1 hmem with hold | hnew
    · exact absurd hname ((List.pairwise_append.1 hkept.names_concat).2.2 file hold _
        (List.mem_singleton.2 rfl))
    · rw [List.mem_singleton.1 hnew] at hfile
      exact hfile
  · rintro hmem _ _ ⟨rfl, rfl⟩
    simpa [Directory.has] using ⟨_, hmem, rfl⟩

theorem Kept.sorted_concat (hkept : Kept source maxFiles directory)
    (hnow : ∀ file ∈ directory.files, file.timestamp ≤ now) :
    (directory.files ++ [nextBackup source now directory]).Pairwise
      fun a b => a.timestamp ≤ b.timestamp := by
  refine List.pairwise_append.2 ⟨hkept.sorted, List.pairwise_singleton _ _, fun file hfile => ?_⟩
  intro new hnew
  rw [List.mem_singleton.1 hnew]
  exact hnow file hfile

/-- The first backup of a second finds the plain name free. -/
theorem Kept.opened_concat (hkept : Kept source maxFiles directory)
    (hnow : ∀ file ∈ directory.files, file.timestamp ≤ now) :
    (directory.files ++ [nextBackup source now directory]).IsChain
      fun a b => a.timestamp ≠ b.timestamp → b.sequence = 0 := by
  refine List.isChain_append.2 ⟨hkept.opened, List.isChain_singleton _, fun last hlast => ?_⟩
  intro new hnew hne
  obtain rfl : nextBackup source now directory = new := by simpa using hnew
  by_contra hnumbered
  obtain ⟨file, hfile, htime, -⟩ :=
    (nextSequence_spec source now directory).2 0 (Nat.pos_of_ne_zero hnumbered)
  obtain ⟨before, hfiles⟩ := List.getLast?_eq_some_iff.1 hlast
  have hle : file.timestamp ≤ last.timestamp := by
    have hsorted := hkept.sorted
    rw [hfiles] at hfile hsorted
    rcases List.mem_append.1 hfile with hbefore | heq
    · exact (List.pairwise_append.1 hsorted).2.2 file hbefore last (List.mem_singleton.2 rfl)
    · rw [List.mem_singleton.1 heq]
  have hlastNow : last.timestamp ≤ now := hnow last (by rw [hfiles]; simp)
  exact hne (hlastNow.antisymm (htime ▸ hle))

/-- When the directory is full, exactly the oldest backup is deleted under the condition. -/
theorem unlinkExcess_eq_iff (hkept : Kept source maxFiles directory)
    (hnow : ∀ file ∈ directory.files, file.timestamp ≤ now)
    (hfiles : directory.files = oldest :: rest)
    (hfull : (directory.files.length : ℤ) = maxFiles) :
    unlinkExcess source maxFiles (directory.files ++ [nextBackup source now directory]) =
        rest ++ [nextBackup source now directory] ↔
      DeletesOldest source maxFiles directory now := by
  have hnames : (directory.files ++ [nextBackup source now directory]).Pairwise
      fun a b => a.name source ≠ b.name source := hkept.names_concat
  have hrest : ((rest ++ [nextBackup source now directory]).length : ℤ) = maxFiles := by
    rw [hfiles] at hfull
    simpa using hfull
  have hnotfew : ¬ (directory.files.length : ℤ) < maxFiles := hfull.not_lt
  rw [hfiles, List.cons_append] at hnames
  rw [DeletesOldest, or_iff_right hnotfew, hfiles, List.cons_append,
    unlinkExcess_eq_tail_iff hrest hnames, oldest_first_iff hkept hnow hfiles]
  simp only [List.head?_cons, Option.mem_def, Option.some.injEq, forall_eq', List.tail_cons]

/-- **One call** under the invariant: it leaves the newest backups, its own among them, if and only
if the oldest is the one deleted. -/
theorem keepsNewest_step_iff (hmax : 1 ≤ maxFiles) (hkept : Kept source maxFiles directory)
    (hnow : ∀ file ∈ directory.files, file.timestamp ≤ now)
    (h : KeepsNewest maxFiles directory) :
    (∀ directory', step source maxFiles directory now = some directory' →
      KeepsNewest maxFiles directory') ∧ ReturnsExisting source maxFiles directory now ↔
    DeletesOldest source maxFiles directory now := by
  rw [step_eq hmax hkept.hasSource, returnsExisting_iff hmax hkept]
  simp only [Option.some.injEq, forall_eq']
  rcases hkept.few.lt_or_eq with hfew | hfull
  · have hlength : ((directory.files ++ [nextBackup source now directory]).length : ℤ) ≤
        maxFiles := by
      rw [List.length_append, List.length_singleton]
      omega
    rw [unlinkExcess_of_length_le hlength]
    exact iff_of_true ⟨h.concat hfew, by simp⟩ (Or.inl hfew)
  · cases hfiles : directory.files with
    | nil =>
      rw [hfiles, List.length_nil] at hfull
      omega
    | cons oldest rest =>
      have hleft : (unlinkExcess source maxFiles
          (directory.files ++ [nextBackup source now directory])).Sublist
          (oldest :: (rest ++ [nextBackup source now directory])) := by
        rw [hfiles]
        exact List.filter_sublist
      rw [← hfiles, h.concat_iff hmax hfiles hfull hleft,
        ← unlinkExcess_eq_iff hkept hnow hfiles hfull]
      refine and_iff_left_of_imp fun heq => ?_
      rw [heq]
      exact List.mem_append_right _ (List.mem_singleton.2 rfl)

/-- **The invariant is kept** by a call that deletes the oldest backup, if any. -/
theorem Kept.step (hmax : 1 ≤ maxFiles) (hkept : Kept source maxFiles directory)
    (hnow : ∀ file ∈ directory.files, file.timestamp ≤ now)
    (hdeletes : DeletesOldest source maxFiles directory now)
    (hstep : step source maxFiles directory now = some directory') :
    Kept source maxFiles directory' := by
  have hsorted := hkept.sorted_concat hnow
  have hopened := hkept.opened_concat hnow
  have hnames : (directory.files ++ [nextBackup source now directory]).Pairwise
      fun a b => a.name source ≠ b.name source := hkept.names_concat
  rw [step_eq hmax hkept.hasSource] at hstep
  obtain rfl := Option.some.inj hstep
  rcases hkept.few.lt_or_eq with hfew | hfull
  · -- there is room for one more, so nothing is deleted
    have hlength : ((directory.files ++ [nextBackup source now directory]).length : ℤ) ≤
        maxFiles := by
      rw [List.length_append, List.length_singleton]
      omega
    rw [unlinkExcess_of_length_le hlength]
    refine ⟨hkept.hasSource, hlength, hsorted, hnames, hopened, fun first hfirst => Or.inl ?_⟩
    cases hfiles : directory.files with
    | nil =>
      obtain rfl : nextBackup source now directory = first := by simpa [hfiles] using hfirst
      by_contra hnumbered
      obtain ⟨file, hfile, -⟩ :=
        (nextSequence_spec source now directory).2 0 (Nat.pos_of_ne_zero hnumbered)
      simp [hfiles] at hfile
    | cons oldest rest =>
      have hhead : first ∈ directory.files.head? := by simpa [hfiles] using hfirst
      rcases hkept.plain first hhead with hzero | ⟨-, hfull, -⟩
      · exact hzero
      · omega
  · cases hfiles : directory.files with
    | nil =>
      rw [hfiles, List.length_nil] at hfull
      omega
    | cons oldest rest =>
      -- the directory is full: the oldest goes, and the invariant is to hold of the rest
      have hlost := hkept.plain oldest (by rw [hfiles]; rfl)
      rw [← hfiles, (unlinkExcess_eq_iff hkept hnow hfiles hfull).2 hdeletes]
      rw [hfiles, List.cons_append] at hsorted hopened hnames
      have hlength : ((rest ++ [nextBackup source now directory]).length : ℤ) = maxFiles := by
        rw [hfiles] at hfull
        simpa using hfull
      have hcond := (hdeletes.resolve_left hfull.not_lt).2 oldest (by rw [hfiles]; rfl)
      rw [hfiles, List.tail_cons] at hcond
      have hfirst := (oldest_first_iff hkept hnow hfiles).2 hcond
      refine ⟨hkept.hasSource, hlength.le, hsorted.of_cons, hnames.of_cons, hopened.tail,
        fun next hnext => ?_⟩
      have hmem : next ∈ rest ++ [nextBackup source now directory] := List.mem_of_mem_head? hnext
      by_cases htime : oldest.timestamp = next.timestamp
      · -- the second of the oldest goes on, without its plain name
        right
        have hnumbered : ∀ file ∈ rest ++ [nextBackup source now directory],
            file.timestamp = oldest.timestamp → file.sequence ≠ 0 := by
          intro file hfile heq hplain
          rcases hlost with hzero | ⟨-, -, hlost⟩
          · exact (hfirst file hfile).ne (name_inj.2 ⟨heq.symm, hzero.trans hplain.symm⟩)
          · rw [hfiles] at hlost
            rcases List.mem_append.1 hfile with hrest | hnew
            · exact hlost file (List.mem_cons_of_mem _ hrest) heq hplain
            · rw [List.mem_singleton.1 hnew] at heq
              exact hlost oldest List.mem_cons_self rfl (hcond.2 heq).2
        refine ⟨?_, hlength.ge, fun file hfile heq => hnumbered file hfile (heq.trans htime.symm)⟩
        rcases hlost with hzero | ⟨hsuffix, -⟩
        · exact (plain_lt_iff htime hzero (hnumbered next hmem htime.symm)).1 (hfirst next hmem)
        · exact hsuffix
      · exact Or.inl ((List.isChain_cons.1 hopened).1 next hnext htime)

theorem meets_of_sorted {times : List Timestamp} (hsorted : times.Pairwise (· ≤ ·))
    (hfiles : ∀ file ∈ directory.files, ∀ now ∈ times, file.timestamp ≤ now) :
    Meets (step source maxFiles) (fun directory now =>
      ∀ file ∈ directory.files, file.timestamp ≤ now) directory times := by
  induction times generalizing directory with
  | nil => trivial
  | cons now times ih =>
    obtain ⟨hnow, hsorted⟩ := List.pairwise_cons.1 hsorted
    refine ⟨fun file hfile => hfiles file hfile now List.mem_cons_self, fun directory' hstep => ?_⟩
    refine ih hsorted fun file hfile later hlater => ?_
    have hmem : file ∈ directory.files ++ [nextBackup source now directory] := by
      unfold step createSqlitePreMigrationBackup at hstep
      split_ifs at hstep
      · cases hstep
      · cases hstep
      · obtain rfl := Option.some.inj hstep
        exact List.mem_of_mem_filter hfile
    rcases List.mem_append.1 hmem with hold | hnew
    · exact hfiles file hold later (List.mem_cons_of_mem _ hlater)
    · rw [List.mem_singleton.1 hnew]
      exact hnow later hlater

/-- **The newest backups are kept**, and each call returns the path of a backup that is there, over
all calls at non-decreasing times, if and only if every call deletes the oldest backup when it
deletes one. -/
theorem keepsNewest_iff (source : Source) (hmax : 1 ≤ maxFiles) {times : List Timestamp}
    (hsorted : times.Pairwise (· ≤ ·)) :
    Always (step source maxFiles) (KeepsNewest maxFiles) .fresh times ∧
        Meets (step source maxFiles) (ReturnsExisting source maxFiles) .fresh times ↔
      Meets (step source maxFiles) (DeletesOldest source maxFiles) .fresh times := by
  have hkept : Kept source maxFiles .fresh :=
    ⟨rfl, by simp [Directory.fresh]; omega, .nil, .nil, .nil, by simp [Directory.fresh]⟩
  exact always_and_meets_iff
    (fun directory now directory' hkept hnow hdeletes hstep =>
      hkept.step hmax hnow hdeletes hstep)
    (fun directory now hkept hnow h => keepsNewest_step_iff hmax hkept hnow h)
    hkept (meets_of_sorted hsorted (by simp [Directory.fresh]))
    (by simp [KeepsNewest, Directory.fresh])

/-- A database at `/data/store.db`. -/
def storeDb : Source :=
  ⟨"/data/store.db", "store".toList, ".db".toList, Or.inr ⟨"db".toList, rfl⟩⟩

/-- A second of the first minute of 2026. -/
def newYear (second : Fin 60) : Timestamp := ⟨2026, 1, 1, 0, 0, second⟩

theorem keepsNewest_sample :
    Always (step storeDb 2) (KeepsNewest 2) .fresh [newYear 0, newYear 1, newYear 1] ∧
      Meets (step storeDb 2) (ReturnsExisting storeDb 2) .fresh
        [newYear 0, newYear 1, newYear 1] :=
  (keepsNewest_iff storeDb (by decide) (by decide)).2 (by decide)

/-- One backup is kept, and two are made in a second: the second is deleted by its own call. -/
theorem not_keepsNewest_sample : [newYear 0, newYear 0].Pairwise (· ≤ ·) ∧
    ¬ Meets (step storeDb 1) (ReturnsExisting storeDb 1) .fresh [newYear 0, newYear 0] ∧
    ¬ Always (step storeDb 1) (KeepsNewest 1) .fresh [newYear 0, newYear 0] := by
  have hfirst : step storeDb 1 .fresh (newYear 0) = some ⟨true, 1, [⟨0, newYear 0, 0⟩]⟩ := by rfl
  have hsecond : createSqlitePreMigrationBackup storeDb 1 (newYear 0)
      ⟨true, 1, [⟨0, newYear 0, 0⟩]⟩ =
        .ok ("store.pre-migrate-20260101T000000Z-1.db".toList,
          ⟨true, 2, [⟨0, newYear 0, 0⟩]⟩) := by rfl
  refine ⟨by decide, fun h => ?_, fun h => ?_⟩
  · have hhas := (h.2 _ hfirst).1 _ _ hsecond
    revert hhas
    decide
  · have hlast : step storeDb 1 ⟨true, 1, [⟨0, newYear 0, 0⟩]⟩ (newYear 0) =
        some ⟨true, 2, [⟨0, newYear 0, 0⟩]⟩ := by rw [step, hsecond]; rfl
    have hkeeps : KeepsNewest 1 ⟨true, 2, [⟨0, newYear 0, 0⟩]⟩ := (h.2 _ hfirst).2 _ hlast
    revert hkeeps
    unfold KeepsNewest
    decide

end FirecrawlLb.Db.Backup
