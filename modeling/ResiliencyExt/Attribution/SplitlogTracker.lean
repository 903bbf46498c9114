import ResiliencyExt.Foundation.Dict
import ResiliencyExt.Foundation.System

set_option autoImplicit false

/-!
# Split-log tracking

A job that writes one log file for each restart.  The tracker scans `LOGS_DIR` at every
poll, and analyzes a file when another one comes after it.  A poll looks for pending files
only when its own scan shows something new; a GET request scans as well, and looks for
pending files only when it ends the job.

The log files are those that `_find_log_files` finds, in its order.
-/

namespace ResiliencyExt.Attribution

open Foundation List

/-! ## The job -/

inductive ScanRoot where
  | logsDir
  /-- `LOGS_DIR/slurm` -/
  | slurm
  deriving DecidableEq, Repr

/-- The path of a log file. -/
structure LogFile where
  root : ScanRoot
  /-- `os.path.basename(log_file)` -/
  basename : String
  deriving DecidableEq, Repr

structure FileInfo where
  logFile : LogFile
  analysisTriggered : Bool
  deriving DecidableEq, Repr

structure Job where
  schedRestarts : Nat
  knownLogFiles : List LogFile
  /-- Keyed by base name. -/
  fileInfo : Dict String FileInfo
  terminated : Bool

/-- What a scan finds. -/
structure Disk where
  /-- `cycle_count` of the slurm output, if it can be read. -/
  cycleCount : Option Nat
  logFiles : List LogFile
  deriving DecidableEq, Repr

namespace Job

def new : Job :=
  ⟨0, [], .empty, false⟩

/-- The loop of `_update_job_state` over the log files. -/
def addFileInfo (fileInfo : Dict String FileInfo) (logFile : LogFile) : Dict String FileInfo :=
  if logFile.basename ∈ fileInfo.keys then fileInfo
  else fileInfo.set logFile.basename ⟨logFile, false⟩

/-- `_update_job_state` -/
def updateJobState (job : Job) (disk : Disk) : Job :=
  { job with
    schedRestarts := disk.cycleCount.getD job.schedRestarts
    knownLogFiles := disk.logFiles
    fileInfo := disk.logFiles.foldl addFileInfo job.fileInfo }

/-- One file of `_analyze_pending_files`, with the files whose analysis has been triggered. -/
def analyzeFile (isComplete : Nat → Bool)
    (found : Dict String FileInfo × List LogFile) (entry : LogFile × Nat) :
    Dict String FileInfo × List LogFile :=
  match found.1.get? entry.1.basename with
  | none => found
  | some info =>
    if info.analysisTriggered then found
    else if isComplete entry.2 then
      (found.1.set entry.1.basename { info with analysisTriggered := true },
        found.2 ++ [info.logFile])
    else found

/-- A file is complete if it is not the last one, or the job is terminated. -/
def isComplete (job : Job) (i : Nat) : Bool :=
  i + 1 ≠ job.knownLogFiles.length || job.terminated

/-- `_analyze_pending_files`: the job, and the files whose analysis it triggers. -/
def analyzePendingFiles (job : Job) : Job × List LogFile :=
  let found := job.knownLogFiles.zipIdx.foldl (analyzeFile job.isComplete) (job.fileInfo, [])
  ({ job with fileInfo := found.1 }, found.2)

end Job

/-! ## Polls and requests -/

structure TrackerState where
  disk : Disk
  job : Job
  /-- The files whose analysis has been triggered, in order. -/
  triggered : List LogFile

inductive TrackerEvent where
  /-- A log file appears at a place in the order of the files. -/
  | appear (i : Nat) (logFile : LogFile)
  /-- The slurm output can be read, or not, and has so many restarts. -/
  | slurmOutput (cycleCount : Option Nat)
  /-- `initialize_job` -/
  | initializeJob
  /-- `_poll_job` -/
  | poll
  /-- `refresh_job_from_disk`, with which a GET request with `file=` begins; a poll comes
  next. -/
  | refresh
  /-- A GET request without `file=`. -/
  | get
  deriving DecidableEq, Repr

namespace TrackerState

def updateJobState (s : TrackerState) : TrackerState :=
  { s with job := s.job.updateJobState s.disk }

def analyzePendingFiles (s : TrackerState) : TrackerState :=
  { s with
    job := s.job.analyzePendingFiles.1
    triggered := s.triggered ++ s.job.analyzePendingFiles.2 }

/-- `mark_terminated` -/
def markTerminated (s : TrackerState) : TrackerState :=
  { s with job := { s.job with terminated := true } }

/-- `_poll_job` where it looks for a new restart. -/
def pollRestarts (polled : TrackerState) (prevRestarts : Nat) : TrackerState :=
  if polled.job.schedRestarts > prevRestarts then polled.analyzePendingFiles else polled

/-- `_poll_job` where it looks for new files. -/
def pollFiles (polled : TrackerState) (prevFiles : List LogFile) : TrackerState :=
  if polled.job.knownLogFiles.any fun logFile => logFile ∉ prevFiles then
    polled.analyzePendingFiles
  else polled

/-- `_poll_job` -/
def pollJob (s : TrackerState) : TrackerState :=
  if s.job.terminated then s
  else (s.updateJobState.pollRestarts s.job.schedRestarts).pollFiles s.job.knownLogFiles

def step (s : TrackerState) : TrackerEvent → Option TrackerState
  | .appear i logFile =>
    if logFile ∈ s.disk.logFiles then none
    else
      some { s with disk.logFiles :=
        s.disk.logFiles.take i ++ logFile :: s.disk.logFiles.drop i }
  | .slurmOutput cycleCount => some { s with disk.cycleCount := cycleCount }
  | .initializeJob => some s.updateJobState.analyzePendingFiles
  | .poll => some s.pollJob
  | .refresh => some s.updateJobState
  | .get => some s.updateJobState.markTerminated.analyzePendingFiles.pollJob

def system : System TrackerState TrackerEvent where
  init s := s.disk.logFiles.Nodup ∧ s.job = .new ∧ s.triggered = []
  step := step

end TrackerState

/-! ## Files by base name -/

/-- Every known file has a record of its own, which says whether its analysis has been
triggered. -/
structure Recorded (fileInfo : Dict String FileInfo) (known triggered : List LogFile) : Prop where
  record : ∀ logFile ∈ known,
    fileInfo.get? logFile.basename = some ⟨logFile, decide (logFile ∈ triggered)⟩
  file : ∀ basename info, fileInfo.get? basename = some info →
    info.logFile ∈ known ∧ info.logFile.basename = basename

/-- Base names tell the files apart. -/
def DistinctNames (logFiles : List LogFile) : Prop :=
  (logFiles.map LogFile.basename).Nodup

instance (logFiles : List LogFile) : Decidable (DistinctNames logFiles) :=
  inferInstanceAs (Decidable (List.Nodup _))

variable {logFiles known triggered : List LogFile} {logFile : LogFile}
    {fileInfo : Dict String FileInfo}

theorem DistinctNames.inj (h : DistinctNames logFiles) {other : LogFile}
    (hfile : logFile ∈ logFiles) (hother : other ∈ logFiles)
    (hname : logFile.basename = other.basename) : logFile = other :=
  inj_on_of_nodup_map h hfile hother hname

theorem get?_addFileInfo (fileInfo : Dict String FileInfo) (logFile : LogFile)
    (basename : String) :
    (Job.addFileInfo fileInfo logFile).get? basename =
      (fileInfo.get? basename).or
        (if logFile.basename = basename then some ⟨logFile, false⟩ else none) := by
  unfold Job.addFileInfo
  by_cases hkey : logFile.basename ∈ fileInfo.keys
  · rw [if_pos hkey]
    by_cases hname : logFile.basename = basename
    · obtain ⟨info, hinfo⟩ := Dict.exists_get?_of_mem hkey
      rw [hname] at hinfo
      simp [hinfo]
    · simp [hname]
  · rw [if_neg hkey, Dict.get?_set]
    by_cases hname : basename = logFile.basename
    · have hnone : fileInfo.get? basename = none :=
        Option.not_isSome_iff_eq_none.mp fun hsome =>
          hkey (hname ▸ Dict.get?_isSome_iff.mp hsome)
      simp [hname.symm, hnone]
    · simp [hname, Ne.symm hname]

/-- Records of files that have none yet, by base name. -/
theorem get?_foldl_addFileInfo (logFiles : List LogFile) (fileInfo : Dict String FileInfo)
    (basename : String) :
    (logFiles.foldl Job.addFileInfo fileInfo).get? basename =
      (fileInfo.get? basename).or
        ((logFiles.find? fun logFile => logFile.basename = basename).map
          fun logFile => ⟨logFile, false⟩) := by
  induction logFiles generalizing fileInfo with
  | nil => simp
  | cons logFile rest ih =>
    rw [foldl_cons, ih, get?_addFileInfo, Option.or_assoc]
    by_cases hname : logFile.basename = basename
    · simp [hname]
    · simp [hname]

/-- A scan that finds all known files makes the records that are missing. -/
theorem Recorded.scan (h : Recorded fileInfo known triggered) (hnames : DistinctNames logFiles)
    (hknown : known ⊆ logFiles) (htriggered : triggered ⊆ known) :
    Recorded (logFiles.foldl Job.addFileInfo fileInfo) logFiles triggered where
  record logFile hfile := by
    rw [get?_foldl_addFileInfo]
    cases hget : fileInfo.get? logFile.basename with
    | some info =>
      obtain ⟨hin, hname⟩ := h.file _ _ hget
      have hsame : info.logFile = logFile := hnames.inj (hknown hin) hfile hname
      rw [Option.some_or, ← hget]
      exact h.record logFile (hsame ▸ hin)
    | none =>
      have hnew : logFile ∉ triggered := by
        intro hin
        have hrecord := h.record logFile (htriggered hin)
        rw [hget] at hrecord
        cases hrecord
      have hfind : (logFiles.find? fun other => other.basename = logFile.basename) =
          some logFile := by
        have hsome : (logFiles.find? fun other =>
            other.basename = logFile.basename).isSome :=
          find?_isSome.mpr ⟨logFile, hfile, decide_eq_true rfl⟩
        obtain ⟨found, hfound⟩ := Option.isSome_iff_exists.mp hsome
        have hname : found.basename = logFile.basename := by
          simpa using find?_some hfound
        rw [hfound, hnames.inj (mem_of_find?_eq_some hfound) hfile hname]
      simp [hfind, hnew]
  file basename info hget := by
    rw [get?_foldl_addFileInfo] at hget
    rcases Option.or_eq_some_iff.mp hget with hold | ⟨_, hnew⟩
    · obtain ⟨hin, hname⟩ := h.file _ _ hold
      exact ⟨hknown hin, hname⟩
    · obtain ⟨logFile, hfind, rfl⟩ := Option.map_eq_some_iff.mp hnew
      exact ⟨mem_of_find?_eq_some hfind, by simpa using find?_some hfind⟩

/-! ## Pending files -/

/-- One file of the loop. -/
theorem Recorded.analyzeFile (h : Recorded fileInfo known triggered) {complete : Nat → Bool}
    {triggers : List LogFile} (hmem : logFile ∈ known) (i : Nat) :
    Job.analyzeFile complete (fileInfo, triggers) (logFile, i) =
      if complete i && logFile ∉ triggered then
        (fileInfo.set logFile.basename ⟨logFile, true⟩, triggers ++ [logFile])
      else (fileInfo, triggers) := by
  unfold Job.analyzeFile
  rw [h.record logFile hmem]
  by_cases hin : logFile ∈ triggered
  · simp [hin]
  · simp [hin]

theorem Recorded.trigger (h : Recorded fileInfo known triggered) (hnames : DistinctNames known)
    (hmem : logFile ∈ known) :
    Recorded (fileInfo.set logFile.basename ⟨logFile, true⟩) known (triggered ++ [logFile]) where
  record other hother := by
    rw [Dict.get?_set]
    by_cases hsame : other = logFile
    · simp [hsame]
    · have hname : other.basename ≠ logFile.basename := fun heq =>
        hsame (hnames.inj hother hmem heq)
      simp [hname, hsame, h.record other hother]
  file basename info hget := by
    rw [Dict.get?_set] at hget
    split at hget
    · rename_i hname
      cases hget
      exact ⟨hmem, hname.symm⟩
    · exact h.file _ _ hget

/-- What the loop over files triggers: the complete ones that have not been. -/
theorem foldl_analyzeFile {complete : Nat → Bool} {before : List LogFile}
    (hnames : DistinctNames known) {entries : List (LogFile × Nat)}
    (hentries : ∀ entry ∈ entries, entry.1 ∈ known) (hnodup : (entries.map Prod.fst).Nodup)
    {triggers : List LogFile} (h : Recorded fileInfo known (before ++ triggers)) :
    Recorded (entries.foldl (Job.analyzeFile complete) (fileInfo, triggers)).1 known
        (before ++ (entries.foldl (Job.analyzeFile complete) (fileInfo, triggers)).2) ∧
      (entries.foldl (Job.analyzeFile complete) (fileInfo, triggers)).2 =
        triggers ++ (entries.filter fun entry =>
          complete entry.2 && entry.1 ∉ before ++ triggers).map Prod.fst := by
  induction entries generalizing fileInfo triggers with
  | nil => simpa using h
  | cons entry rest ih =>
    obtain ⟨logFile, i⟩ := entry
    have hmem : logFile ∈ known := hentries _ mem_cons_self
    have hrest : ∀ entry ∈ rest, entry.1 ∈ known := fun entry hentry =>
      hentries entry (mem_cons_of_mem _ hentry)
    obtain ⟨hnew, hnodup⟩ := nodup_cons.mp hnodup
    rw [foldl_cons, h.analyzeFile hmem, filter_cons]
    by_cases hpending : (complete i && logFile ∉ before ++ triggers) = true
    · simp only [if_pos hpending]
      have htrigger := h.trigger hnames hmem
      rw [append_assoc] at htrigger
      obtain ⟨hrecorded, htriggers⟩ := ih hrest hnodup htrigger
      refine ⟨hrecorded, ?_⟩
      rw [htriggers, append_assoc, map_cons]
      refine congrArg (fun files => triggers ++ logFile :: files) ?_
      refine congrArg (map Prod.fst) (filter_congr fun entry hentry => ?_)
      have hne : entry.1 ≠ logFile := fun heq =>
        hnew (mem_map.mpr ⟨entry, hentry, heq⟩)
      simp [hne]
    · simp only [if_neg hpending]
      exact ih hrest hnodup h

/-! ## The last file -/

/-- The last of all files is the last of those that are known, if it is known. -/
theorem getLast?_of_sublist (hnodup : logFiles.Nodup) (hknown : known.Sublist logFiles)
    (hlast : logFiles.getLast? = some logFile) (hmem : logFile ∈ known) :
    known.getLast? = some logFile := by
  obtain ⟨before, rfl⟩ := getLast?_eq_some_iff.mp hlast
  obtain ⟨first, second, rfl, hfirst, hsecond⟩ := sublist_append_iff.mp hknown
  have hnot : logFile ∉ before := by
    intro hin
    exact (nodup_append.mp hnodup).2.2 _ hin _ (mem_singleton_self _) rfl
  rcases mem_append.mp hmem with hin | hin
  · exact absurd (hfirst.subset hin) hnot
  · rw [sublist_singleton] at hsecond
    rcases hsecond with rfl | rfl
    · cases hin
    · exact getLast?_concat

theorem mem_dropLast_iff :
    logFile ∈ known.dropLast ↔
      ∃ i : Nat, known[i]? = some logFile ∧ i + 1 < known.length := by
  rw [mem_iff_getElem?]
  refine exists_congr fun i => ?_
  rw [getElem?_dropLast]
  split
  · rename_i hi
    exact ⟨fun h => ⟨h, by omega⟩, And.left⟩
  · rename_i hi
    exact ⟨nofun, fun h => absurd h.2 (by omega)⟩

namespace TrackerState

variable {s : TrackerState}

/-! ## Scans and analyses -/

/-- What holds between any two steps of a poll or a request. -/
structure Scanned (s : TrackerState) : Prop where
  nodup : s.disk.logFiles.Nodup
  found : s.job.knownLogFiles.Sublist s.disk.logFiles
  recorded : Recorded s.job.fileInfo s.job.knownLogFiles s.triggered
  once : s.triggered.Nodup
  known : s.triggered ⊆ s.job.knownLogFiles
  last : s.job.terminated = false →
    ∀ logFile ∈ s.job.knownLogFiles.getLast?, logFile ∉ s.triggered

/-- All files but the last have been triggered. -/
def Finished (s : TrackerState) : Prop :=
  ∀ logFile ∈ s.job.knownLogFiles.dropLast, logFile ∈ s.triggered

/-- What holds between polls and requests. -/
structure Tracked (s : TrackerState) : Prop extends Scanned s where
  finished : s.job.terminated = false → s.Finished

/-- A scan triggers nothing, and the new last file has not been triggered. -/
theorem Scanned.updateJobState (h : s.Scanned) (hnames : DistinctNames s.disk.logFiles) :
    s.updateJobState.Scanned where
  nodup := h.nodup
  found := List.Sublist.refl _
  recorded := h.recorded.scan hnames h.found.subset h.known
  once := h.once
  known := List.Subset.trans h.known h.found.subset
  last hopen logFile hlast htriggered :=
    h.last hopen logFile (getLast?_of_sublist h.nodup h.found hlast (h.known htriggered))
      htriggered

/-- The pending files of a scanned job. -/
theorem mem_analyzePendingFiles (h : s.Scanned) (hnames : DistinctNames s.job.knownLogFiles) :
    Recorded s.analyzePendingFiles.job.fileInfo s.job.knownLogFiles
        s.analyzePendingFiles.triggered ∧
      s.job.analyzePendingFiles.2.Sublist s.job.knownLogFiles ∧
      ∀ logFile, logFile ∈ s.job.analyzePendingFiles.2 ↔
        ∃ i : Nat, s.job.knownLogFiles[i]? = some logFile ∧ s.job.isComplete i = true ∧
          logFile ∉ s.triggered := by
  have hentries : ∀ entry ∈ s.job.knownLogFiles.zipIdx, entry.1 ∈ s.job.knownLogFiles :=
    fun entry hentry => mem_of_getElem? (mem_zipIdx_iff_getElem?.mp hentry)
  have hnodup : (s.job.knownLogFiles.zipIdx.map Prod.fst).Nodup := by
    rw [zipIdx_map_fst]
    exact h.found.nodup h.nodup
  have hrecorded : Recorded s.job.fileInfo s.job.knownLogFiles (s.triggered ++ []) :=
    (append_nil s.triggered).symm ▸ h.recorded
  obtain ⟨hafter, htriggers⟩ :=
    foldl_analyzeFile hnames hentries hnodup hrecorded
  refine ⟨hafter, ?_, fun logFile => ?_⟩
  · unfold Job.analyzePendingFiles
    rw [htriggers, nil_append]
    refine (filter_sublist.map Prod.fst).trans ?_
    rw [zipIdx_map_fst]
  · unfold Job.analyzePendingFiles
    simp only [htriggers, nil_append, append_nil, mem_map, mem_filter,
      Bool.and_eq_true, decide_eq_true_eq]
    constructor
    · rintro ⟨⟨_, i⟩, ⟨hentry, hcomplete, hnot⟩, rfl⟩
      exact ⟨i, mem_zipIdx_iff_getElem?.mp hentry, hcomplete, hnot⟩
    · rintro ⟨i, hget, hcomplete, hnot⟩
      exact ⟨⟨logFile, i⟩, ⟨mem_zipIdx_iff_getElem?.mpr hget, hcomplete, hnot⟩, rfl⟩

theorem Scanned.analyzePendingFiles (h : s.Scanned)
    (hnames : DistinctNames s.job.knownLogFiles) : s.analyzePendingFiles.Scanned := by
  obtain ⟨hrecorded, hsublist, hmem⟩ := mem_analyzePendingFiles h hnames
  refine ⟨h.nodup, h.found, hrecorded, ?_, ?_, fun hopen logFile hlast htriggered => ?_⟩
  · refine nodup_append.mpr ⟨h.once, hsublist.nodup (h.found.nodup h.nodup), ?_⟩
    rintro logFile hold _ hnew rfl
    obtain ⟨_, _, _, hnot⟩ := (hmem logFile).mp hnew
    exact hnot hold
  · exact append_subset.mpr ⟨h.known, hsublist.subset⟩
  · rcases mem_append.mp htriggered with hold | hnew
    · exact h.last hopen logFile hlast hold
    · obtain ⟨i, hget, hcomplete, _⟩ := (hmem logFile).mp hnew
      have hend : s.job.knownLogFiles[s.job.knownLogFiles.length - 1]? = some logFile := by
        rw [← getLast?_eq_getElem?]
        exact hlast
      have hi := (List.getElem?_eq_some_iff.mp hget).1
      have hindex := (getElem?_inj hi (h.found.nodup h.nodup)).mp (hget.trans hend.symm)
      have hopen' : s.job.terminated = false := hopen
      simp only [Job.isComplete, hopen', Bool.or_false, decide_eq_true_eq] at hcomplete
      omega

/-- An analysis leaves only the last file of an open job. -/
theorem Scanned.finished (h : s.Scanned) (hnames : DistinctNames s.job.knownLogFiles) :
    s.analyzePendingFiles.Finished := by
  obtain ⟨_, _, hmem⟩ := mem_analyzePendingFiles h hnames
  intro logFile hfile
  by_cases hold : logFile ∈ s.triggered
  · exact mem_append_left _ hold
  · obtain ⟨i, hget, hi⟩ := mem_dropLast_iff.mp hfile
    refine mem_append_right _ ((hmem logFile).mpr ⟨i, hget, ?_, hold⟩)
    have hne : i + 1 ≠ s.job.knownLogFiles.length := Nat.ne_of_lt hi
    simp [Job.isComplete, hne]

/-- An analysis leaves no file of a terminated job. -/
theorem Scanned.flushed (h : s.Scanned) (hnames : DistinctNames s.job.knownLogFiles)
    (hterminated : s.job.terminated = true) :
    ∀ logFile ∈ s.job.knownLogFiles, logFile ∈ s.analyzePendingFiles.triggered := by
  obtain ⟨_, _, hmem⟩ := mem_analyzePendingFiles h hnames
  intro logFile hfile
  by_cases hold : logFile ∈ s.triggered
  · exact mem_append_left _ hold
  · obtain ⟨i, hget⟩ := mem_iff_getElem?.mp hfile
    refine mem_append_right _ ((hmem logFile).mpr ⟨i, hget, ?_, hold⟩)
    simp [Job.isComplete, hterminated]

/-! ## Polls and requests -/

variable {t : TrackerState}

/-- No two log files share a base name, and the scan of a request for a single file of an open
job finds no new one, unless it is the only one. -/
def Noticed (s : TrackerState) : TrackerEvent → Prop
  | .appear _ _ | .slurmOutput _ => True
  | .initializeJob | .poll | .get => DistinctNames s.disk.logFiles
  | .refresh => DistinctNames s.disk.logFiles ∧
      (s.job.terminated = true ∨ s.disk.logFiles ⊆ s.job.knownLogFiles ∨
        s.disk.logFiles.length ≤ 1)

instance (s : TrackerState) (event : TrackerEvent) : Decidable (s.Noticed event) :=
  match event with
  | .appear _ _ | .slurmOutput _ => .isTrue trivial
  | .initializeJob | .poll | .get => inferInstanceAs (Decidable (DistinctNames _))
  | .refresh => inferInstanceAs (Decidable (DistinctNames _ ∧ (_ ∨ _ ∨ _)))

/-- Known files that are all there are. -/
theorem Scanned.known_eq (h : s.Scanned) (hall : s.disk.logFiles ⊆ s.job.knownLogFiles) :
    s.job.knownLogFiles = s.disk.logFiles :=
  h.found.eq_of_length_le (h.nodup.length_le_of_subset hall)

/-- An open job that a scan has shown nothing new is still finished. -/
theorem Tracked.finished_of_same (h : s.Tracked) (hopen : s.job.terminated = false)
    (hall : s.disk.logFiles ⊆ s.job.knownLogFiles) : s.updateJobState.Finished := by
  intro logFile hfile
  have hknown : s.updateJobState.job.knownLogFiles = s.job.knownLogFiles :=
    (h.known_eq hall).symm
  rw [hknown] at hfile
  exact h.finished hopen logFile hfile

theorem Tracked.refresh (h : s.Tracked) (hnoticed : s.Noticed .refresh) :
    s.updateJobState.Tracked := by
  obtain ⟨hnames, hnew⟩ := hnoticed
  refine ⟨h.updateJobState hnames, fun hopen => ?_⟩
  rcases hnew with hterminated | hall | hone
  · cases hterminated.symm.trans hopen
  · exact h.finished_of_same hopen hall
  · intro logFile hfile
    obtain ⟨i, _, hi⟩ := mem_dropLast_iff.mp hfile
    have hlength : s.updateJobState.job.knownLogFiles.length ≤ 1 := hone
    omega

theorem Scanned.tracked (h : s.Scanned) (hnames : DistinctNames s.job.knownLogFiles) :
    s.analyzePendingFiles.Tracked :=
  ⟨h.analyzePendingFiles hnames, fun _ => h.finished hnames⟩

@[simp]
theorem pollRestarts_knownLogFiles (s : TrackerState) (prevRestarts : Nat) :
    (s.pollRestarts prevRestarts).job.knownLogFiles = s.job.knownLogFiles := by
  unfold pollRestarts
  split <;> rfl

theorem Tracked.pollJob (h : s.Tracked) (hnames : DistinctNames s.disk.logFiles) :
    s.pollJob.Tracked := by
  have hscanned := h.updateJobState hnames
  unfold TrackerState.pollJob
  split
  · exact h
  · rename_i hopen
    unfold pollFiles
    split
    · refine Scanned.tracked ?_ (by rw [pollRestarts_knownLogFiles]; exact hnames)
      unfold pollRestarts
      split
      · exact hscanned.analyzePendingFiles hnames
      · exact hscanned
    · rename_i hnew
      unfold pollRestarts
      split
      · exact hscanned.tracked hnames
      · refine ⟨hscanned, fun _ => h.finished_of_same (Bool.eq_false_iff.mpr hopen) ?_⟩
        intro logFile hfile
        by_contra hnot
        refine hnew (any_eq_true.mpr ⟨logFile, ?_, decide_eq_true hnot⟩)
        rw [pollRestarts_knownLogFiles]
        exact hfile

theorem Scanned.markTerminated (h : s.Scanned) : s.markTerminated.Scanned :=
  ⟨h.nodup, h.found, h.recorded, h.once, h.known, nofun⟩

theorem Tracked.get (h : s.Tracked) (hnames : DistinctNames s.disk.logFiles) :
    (s.updateJobState.markTerminated.analyzePendingFiles.pollJob).Tracked :=
  ((h.updateJobState hnames).markTerminated.tracked hnames).pollJob hnames

theorem Tracked.step {event : TrackerEvent} (h : s.Tracked) (hnoticed : s.Noticed event)
    (hstep : s.step event = some t) : t.Tracked := by
  cases event with
  | appear i logFile =>
    simp only [TrackerState.step] at hstep
    split at hstep
    · cases hstep
    · rename_i hnew
      cases hstep
      have happear : s.disk.logFiles.Sublist
          (s.disk.logFiles.take i ++ logFile :: s.disk.logFiles.drop i) := by
        conv_lhs => rw [← take_append_drop i s.disk.logFiles]
        exact (sublist_cons_self _ _).append_left _
      refine ⟨⟨?_, h.found.trans happear, h.recorded, h.once, h.known, h.last⟩, h.finished⟩
      refine nodup_middle.mpr (nodup_cons.mpr ⟨?_, ?_⟩)
      · rwa [take_append_drop]
      · rw [take_append_drop]
        exact h.nodup
  | slurmOutput cycleCount =>
    cases hstep
    exact ⟨⟨h.nodup, h.found, h.recorded, h.once, h.known, h.last⟩, h.finished⟩
  | initializeJob =>
    cases hstep
    exact (h.updateJobState hnoticed).tracked hnoticed
  | poll =>
    cases hstep
    exact h.pollJob hnoticed
  | refresh =>
    cases hstep
    exact h.refresh hnoticed
  | get =>
    cases hstep
    exact h.get hnoticed

theorem tracked_of_reachable (hs : system.Reachable Noticed s) : s.Tracked := by
  refine System.Reachable.invariant (P := Tracked) ?_ (fun s event t h => h.step) hs
  rintro ⟨disk, job, triggered⟩ ⟨hnodup, rfl, rfl⟩
  exact ⟨⟨hnodup, nil_sublist _, ⟨nofun, nofun⟩, .nil, List.Subset.refl _, nofun⟩, nofun⟩

/-- What the tracker is to do: every file but the last one of an open job after a poll, every
file after a request that ends the job, no file twice, and never the last file of an open
job. -/
def MissesNothing (s : TrackerState) : TrackerEvent → TrackerState → Prop
  | .poll, t => t.triggered.Nodup ∧ (t.job.terminated = false →
      t.Finished ∧ ∀ logFile ∈ t.job.knownLogFiles.getLast?, logFile ∉ t.triggered)
  | .get, t => t.triggered.Nodup ∧ t.job.knownLogFiles = s.disk.logFiles ∧
      ∀ logFile ∈ t.job.knownLogFiles, logFile ∈ t.triggered
  | _, t => t.triggered.Nodup ∧ (t.job.terminated = false →
      ∀ logFile ∈ t.job.knownLogFiles.getLast?, logFile ∉ t.triggered)

theorem pollJob_of_terminated (h : s.job.terminated = true) : s.pollJob = s :=
  if_pos h

/-- A job whose log directory is empty. -/
def fresh : TrackerState :=
  ⟨⟨some 0, []⟩, .new, []⟩

theorem init_fresh : system.init fresh :=
  ⟨.nil, rfl, rfl⟩

end TrackerState

end ResiliencyExt.Attribution
