import ResiliencyExt.FaultTolerance.PerCycleLogs.CycleChanges

set_option autoImplicit false

/-!
# Per-cycle logs: changes of cycle keep the streams apart

What a run of the reader loop beside the launcher queues.  A worker's text is
queued once and for the file of its own configuration whatever the two threads
do.  The rest needs `Orderly` runs, because two things go wrong outside them.  A
change of cycle flushes the line buffer of the launcher as well, so that a line
that the launcher is writing is cut in two; and a clear request that overtakes a
configuration is confirmed before the reader applies that configuration and
registers its pipes.
-/

namespace ResiliencyExt.FaultTolerance.PerCycleLogs

open Foundation SplitLines List

theorem readTextOf_append (xs ys : List LogEntry) (generation localRank : Nat) :
    readTextOf (xs ++ ys) generation localRank =
      readTextOf xs generation localRank ++ readTextOf ys generation localRank :=
  flatMap_append

namespace ReaderThread

/-! ## The text of a worker -/

/-- As `QueuedOnce`, with the buffer: while the pipe is read it holds what is left of the last
line, and once it is not, nothing. -/
def Assembled (t : ReaderThread) (config : ReaderConfig) (generation localRank : Nat) : Prop :=
  ∃ lines : List Text, ∃ rest : Text,
    readTextOf t.log generation localRank = lines.flatten ++ rest ∧
    (∀ line ∈ lines, LineEnded line) ∧
    (t.Open generation localRank →
      t.reader.textOf generation (.worker localRank) =
          lines.flatMap (renderLine (config.linePrefix localRank)) ∧
        (t.reader.lineBuffers.get? (.worker localRank)).getD [] = rest) ∧
    (¬ t.Open generation localRank →
      t.reader.textOf generation (.worker localRank) =
          lines.flatMap (renderLine (config.linePrefix localRank)) ++
            renderIncomplete (config.linePrefix localRank) rest ∧
        (generation = t.reader.generation →
          (t.reader.lineBuffers.get? (.worker localRank)).getD [] = []))

variable {t u : ReaderThread} {config : ReaderConfig} {localRank fd : Nat} {a : Action}

theorem Assembled.queuedOnce {generation : Nat} (h : t.Assembled config generation localRank) :
    t.QueuedOnce config generation localRank := by
  obtain ⟨lines, rest, hread, hended, hopen, hclosed⟩ := h
  exact ⟨lines, rest, hread, hended, fun h => (hopen h).1, fun h => (hclosed h).1⟩

/-- The streams of all workers. -/
structure Streams (t : ReaderThread) : Prop where
  workers : ∀ generation localRank config, t.configOf generation = some config →
    t.Assembled config generation localRank
  configured : ∀ generation localRank, t.configOf generation = none →
    readTextOf t.log generation localRank = [] ∧
      t.reader.textOf generation (.worker localRank) = []

/-- What a worker's stream is made of is as before. -/
structure SameStream (t u : ReaderThread) (generation localRank : Nat) : Prop where
  read : readTextOf u.log generation localRank = readTextOf t.log generation localRank
  text : u.reader.textOf generation (.worker localRank) =
    t.reader.textOf generation (.worker localRank)
  registered : u.Open generation localRank ↔ t.Open generation localRank
  inForce : generation = u.reader.generation → generation = t.reader.generation
  buffer : generation = t.reader.generation →
    u.reader.lineBuffers.get? (.worker localRank) =
      t.reader.lineBuffers.get? (.worker localRank)

theorem Assembled.of_sameStream {generation : Nat} (h : t.Assembled config generation localRank)
    (hsame : t.SameStream u generation localRank) : u.Assembled config generation localRank := by
  obtain ⟨lines, rest, hread, hended, hopen, hclosed⟩ := h
  refine ⟨lines, rest, hsame.read.trans hread, hended, fun h => ?_, fun h => ?_⟩
  · have hwas := hsame.registered.mp h
    rw [hsame.text, hsame.buffer hwas.1]
    exact hopen hwas
  · obtain ⟨htext, hbuffer⟩ := hclosed fun hwas => h (hsame.registered.mpr hwas)
    rw [hsame.text]
    exact ⟨htext, fun hgeneration => hsame.buffer (hsame.inForce hgeneration) ▸
      hbuffer (hsame.inForce hgeneration)⟩

/-- A step that leaves a stream as it is or assembles it anew keeps the streams. -/
theorem Streams.of_each (h : t.Streams) (hkeep : t.SameRecords u)
    (heach : ∀ generation localRank, t.SameStream u generation localRank ∨
      ∃ config, t.configOf generation = some config ∧
      (t.Assembled config generation localRank → u.Assembled config generation localRank)) :
    u.Streams where
  workers generation localRank config hconfig := by
    rw [configOf_congr hkeep.applied] at hconfig
    have hwas := h.workers generation localRank config hconfig
    rcases heach generation localRank with hsame | ⟨other, hother, hanew⟩
    · exact hwas.of_sameStream hsame
    · obtain rfl : other = config := Option.some.inj (hother.symm.trans hconfig)
      exact hanew hwas
  configured generation localRank hnone := by
    rw [configOf_congr hkeep.applied] at hnone
    obtain ⟨hread, htext⟩ := h.configured generation localRank hnone
    rcases heach generation localRank with hsame | ⟨other, hother, -⟩
    · exact ⟨hsame.read.trans hread, hsame.text.trans htext⟩
    · rw [hother] at hnone
      cases hnone

/-- A read from the worker's pipe. -/
theorem Assembled.read {bytes : List UInt8}
    (h : t.Assembled config t.reader.generation localRank) (hworks : t.reader.WorksUnder config)
    (hfd : t.reader.fdToLocalRank.get? fd = some (.worker localRank))
    (hread : t.reader.ReadsData u.reader (.worker localRank) bytes)
    (hlog : u.log = t.log ++ [.read t.reader.generation (.worker localRank) bytes]) :
    u.Assembled config t.reader.generation localRank := by
  obtain ⟨lines, rest, htext, hended, hopen, -⟩ := h
  obtain ⟨hqueued, hbuffer⟩ := hopen ⟨rfl, fd, hfd⟩
  let assembled :=
    assembleLines (t.reader.lineBuffers.get? (.worker localRank)) (readText bytes)
  have hrender : t.reader.render (.worker localRank) =
      renderLine (config.linePrefix localRank) := by
    funext line
    exact congrArg (renderLine · line) (hworks.prefixes localRank)
  have hnow : u.Open t.reader.generation localRank :=
    ⟨hread.config.generation.symm, fd, hread.registered ▸ hfd⟩
  refine ⟨lines ++ assembled.1, assembled.2.getD [], ?_, fun line hline => ?_, fun _ => ⟨?_, ?_⟩,
    fun hnot => absurd hnow hnot⟩
  · have hone : readTextOf [.read t.reader.generation (.worker localRank) bytes]
        t.reader.generation localRank = readText bytes := by
      simp [readTextOf]
    rw [hlog, readTextOf_append, hone, htext, flatten_append, append_assoc,
      append_assoc, flatten_assembleLines, hbuffer]
  · rcases mem_append.mp hline with hold | hnew
    · exact hended line hold
    · exact lineEnded_of_mem_assembleLines line hnew
  · rw [hread.text, hqueued, hrender, flatMap_append]
  · rw [hread.buffer, if_pos rfl]

/-- The pipe is not read any more: what is left of the last line is queued. -/
theorem Assembled.close (h : t.Assembled config t.reader.generation localRank)
    (hread : readTextOf u.log t.reader.generation localRank =
      readTextOf t.log t.reader.generation localRank)
    (hworks : t.reader.WorksUnder config)
    (htext : u.reader.textOf t.reader.generation (.worker localRank) =
      t.reader.textOf t.reader.generation (.worker localRank) ++
      renderIncomplete (t.reader.prefixOf (.worker localRank))
      ((t.reader.lineBuffers.get? (.worker localRank)).getD []))
    (hbuffer : u.reader.lineBuffers.get? (.worker localRank) = none)
    (hclosed : ¬ u.Open t.reader.generation localRank) :
    u.Assembled config t.reader.generation localRank := by
  obtain ⟨lines, rest, hlines, hended, hopen, hwas⟩ := h
  refine ⟨lines, rest, hread.trans hlines, hended, fun hnow => absurd hnow hclosed, fun _ => ⟨?_,
    fun _ => by rw [hbuffer]; rfl⟩⟩
  rw [hworks.prefixOf] at htext
  by_cases hpipe : t.Open t.reader.generation localRank
  · obtain ⟨hqueued, hrest⟩ := hopen hpipe
    rw [htext, hqueued, hrest]
  · obtain ⟨hqueued, hrest⟩ := hwas hpipe
    rw [htext, hqueued, hrest rfl]
    exact append_nil _

/-- What an event leaves of the streams. -/
theorem Streams.event (h : t.Streams) (hwired : t.Wired) {result : ReadResult}
    (hreader : u.reader = t.reader.processPipeEvent fd result)
    (hlog : u.log = t.log ++ t.entriesOf fd result) (hkeep : t.SameRecords u) : u.Streams := by
  obtain ⟨config, hconfig, hworks⟩ := hwired.inForce
  refine h.of_each hkeep fun generation localRank => ?_
  rcases t.event_cases fd result with
    ⟨hsame, hentries⟩ | ⟨writer, hwriter, ⟨bytes, hread, hentries⟩ | ⟨hhang, hentries⟩⟩
  · rw [hentries, append_nil] at hlog
    rw [hsame] at hreader
    refine .inl ⟨by rw [hlog], by rw [hreader], ?_, fun hg => by rwa [hreader] at hg,
      fun _ => by rw [hreader]⟩
    unfold Open
    rw [hreader]
  · rw [← hreader] at hread
    rw [hentries] at hlog
    by_cases hmine : generation = t.reader.generation ∧ writer = .worker localRank
    · obtain ⟨rfl, rfl⟩ := hmine
      rw [hwired.registered fd localRank hwriter] at hlog
      exact .inr ⟨config, hconfig, fun hwas => hwas.read hworks hwriter hread hlog⟩
    · refine .inl ⟨?_, hread.text_of_ne _ _ fun heq => hmine ⟨heq.1, heq.2.symm⟩, ?_,
        fun hg => hg.trans hread.config.generation, fun hg => ?_⟩
      · rw [hlog, readTextOf_append]
        refine (congrArg _ ?_).trans (append_nil _)
        cases writer with
        | launcher => rfl
        | worker other =>
          have hnot : ¬ (t.registeredIn fd = generation ∧ other = localRank) := by
            rintro ⟨hg, rfl⟩
            rw [hwired.registered fd other hwriter] at hg
            exact hmine ⟨hg.symm, rfl⟩
          simp [readTextOf, hnot]
      · unfold Open
        rw [hread.config.generation, hread.registered]
      · rw [hread.buffer, if_neg fun heq => hmine ⟨hg, heq.symm⟩]
  · rw [← hreader] at hhang
    have hreads : ∀ generation localRank, readTextOf u.log generation localRank =
        readTextOf t.log generation localRank := fun generation localRank => by
      rw [hlog, hentries, readTextOf_append]
      exact append_nil _
    by_cases hmine : generation = t.reader.generation ∧ writer = .worker localRank
    · obtain ⟨rfl, rfl⟩ := hmine
      refine .inr ⟨config, hconfig, fun hwas => hwas.close (hreads _ _) hworks hhang.text ?_ ?_⟩
      · rw [hhang.buffer, if_pos rfl]
      · rintro ⟨-, other, hother⟩
        rw [hhang.registered] at hother
        obtain rfl := hworks.unique hwriter (Dict.get?_of_get?_erase hother)
        rw [Dict.get?_erase_self] at hother
        cases hother
    · refine .inl ⟨hreads _ _, hhang.text_of_ne _ _ fun heq => hmine ⟨heq.1, heq.2.symm⟩, ?_,
        fun hg => hg.trans hhang.config.generation, fun hg => ?_⟩
      · unfold Open
        rw [hhang.config.generation, hhang.registered]
        refine and_congr_right fun hg => ⟨fun ⟨other, hother⟩ => ⟨other,
          Dict.get?_of_get?_erase hother⟩, fun ⟨other, hother⟩ => ⟨other, ?_⟩⟩
        rw [Dict.get?_erase_of_ne _ ?_]
        · exact hother
        · rintro rfl
          rw [hwriter] at hother
          exact hmine ⟨hg, Option.some.inj hother⟩
      · rw [hhang.buffer, if_neg fun heq => hmine ⟨hg, heq.symm⟩]

/-- What a clean-up leaves of the streams. -/
theorem Streams.cleanUp (h : t.Streams) (hwired : t.Wired)
    (hreader : u.reader = t.reader.cleanupResources)
    (hreads : ∀ generation localRank,
      readTextOf u.log generation localRank = readTextOf t.log generation localRank)
    (hkeep : t.SameRecords u) : u.Streams := by
  obtain ⟨config, hconfig, hworks⟩ := hwired.inForce
  have hclean := Reader.cleansUp_cleanupResources t.reader
  have hnone := Reader.noWorkers_cleanupResources hworks
  rw [← hreader] at hclean hnone
  have hclosed : ∀ generation localRank, ¬ u.Open generation localRank :=
    fun generation localRank ⟨_, fd, hfd⟩ => hnone fd localRank hfd
  refine h.of_each hkeep fun generation localRank => ?_
  by_cases hg : generation = t.reader.generation
  · subst hg
    exact .inr ⟨config, hconfig, fun hwas => hwas.close (hreads _ _) hworks (hclean.text _)
      (hclean.buffer _) (hclosed _ _)⟩
  · exact .inl ⟨hreads _ _, hclean.text_of_ne _ _ hg,
      ⟨fun hnow => absurd hnow (hclosed _ _), fun hwas => absurd hwas.1 hg⟩,
      fun heq => heq.trans hclean.config.generation, fun heq => absurd heq hg⟩

/-- The thread between the two halves of `_apply_config`. -/
def cleaned (t : ReaderThread) : ReaderThread :=
  { t with reader := t.reader.cleanupResources }

theorem Streams.applyConfig (h : t.Streams) (hwired : t.Wired) : t.applyConfig.Streams := by
  have hclean : t.cleaned.Streams := h.cleanUp hwired rfl (fun _ _ => rfl) ⟨rfl, rfl⟩
  obtain ⟨old, -, hworks⟩ := hwired.inForce
  have hgeneration : t.applyConfig.reader.generation = t.reader.generation + 1 :=
    congrArg Nat.succ (Reader.cleansUp_cleanupResources t.reader).config.generation
  have hnew : t.configOf (t.reader.generation + 1) = none := by
    change t.applied[t.reader.generation]? = none
    exact getElem?_eq_none (Nat.le_of_eq hwired.length)
  constructor
  · intro generation localRank config hconfig
    rw [configOf_applyConfig hwired.length] at hconfig
    split at hconfig
    · -- The stream of the new configuration is empty.
      rename_i heq
      obtain ⟨hread, htext⟩ := hclean.configured (t.reader.generation + 1) localRank hnew
      subst heq
      exact ⟨[], [], hread, fun _ hmem => absurd hmem not_mem_nil, fun _ => ⟨htext, rfl⟩,
        fun _ => ⟨htext, fun _ => rfl⟩⟩
    · rename_i hne
      refine (hclean.workers generation localRank config hconfig).of_sameStream
        ⟨rfl, rfl, ⟨fun hnow => absurd (hnow.1.trans hgeneration) hne, fun hwas => ?_⟩,
          fun heq => absurd (heq.trans hgeneration) hne, fun hg => ?_⟩
      · obtain ⟨-, fd, hfd⟩ := hwas
        exact absurd hfd (Reader.noWorkers_cleanupResources hworks fd localRank)
      · exact ((Reader.cleansUp_cleanupResources t.reader).buffer (.worker localRank)).symm
  · intro generation localRank hnone
    rw [configOf_applyConfig hwired.length] at hnone
    split at hnone
    · cases hnone
    · exact hclean.configured generation localRank hnone

theorem streams_create (config : ReaderConfig) : (create config).Streams where
  workers _ _ _ _ := ⟨[], [], rfl, fun _ hmem => absurd hmem not_mem_nil,
    fun _ => ⟨rfl, rfl⟩, fun _ => ⟨rfl, fun _ => rfl⟩⟩
  configured _ _ _ := ⟨rfl, rfl⟩

theorem Streams.step (h : t.Streams) (hwired : t.Wired) (hmove : Moves t a u) : u.Streams := by
  cases hmove with
  | idle hreader hlog hkeep =>
    refine h.of_each hkeep fun generation localRank => .inl ⟨by rw [hlog], by rw [hreader], ?_,
      fun hg => by rwa [hreader] at hg, fun _ => by rw [hreader]⟩
    unfold Open
    rw [hreader]
  | event fd result hreader hlog hkeep => exact h.event hwired hreader hlog hkeep
  | cleared ha hpc hclear hreader hlog hkeep =>
    exact h.cleanUp hwired hreader (fun _ _ => by rw [hlog]) hkeep
  | exited hreader hlog hkeep =>
    refine h.cleanUp hwired hreader (fun _ _ => ?_) hkeep
    rw [hlog, readTextOf_append]
    exact append_nil _
  | dropped hreader hlog hkeep =>
    obtain ⟨config, -, hworks⟩ := hwired.inForce
    refine h.of_each hkeep fun generation localRank => .inl ⟨by rw [hlog], by rw [hreader]; rfl,
      ?_, fun hg => by rwa [hreader] at hg, fun _ => by rw [hreader]; rfl⟩
    unfold Open
    rw [hreader]
    refine and_congr_right fun _ => ⟨fun ⟨fd, hfd⟩ => ⟨fd, get?_of_dropLauncher t _ _ hfd⟩,
      fun ⟨fd, hfd⟩ => ⟨fd, ?_⟩⟩
    -- The launcher's descriptor is not the worker's.
    unfold dropLauncher
    simp only
    split
    · rename_i launcherFd hlauncher
      rw [Dict.get?_erase_of_ne _ ?_]
      · exact hfd
      · rintro rfl
        exact hworks.launcher_ne_worker hlauncher hfd
    · exact hfd
  | applied ha hpc hnew happlied =>
    subst happlied
    exact h.applyConfig hwired

/-! ## The launcher's stream -/

/-- The launcher's stream is what it would be alone. -/
structure LauncherKept (t : ReaderThread) : Prop where
  queued : t.reader.launcherText = (launcherAlone t.log).queued
  buffered : t.reader.lineBuffers.get? .launcher = (launcherAlone t.log).buffered

theorem launcherAlone_append (log : List LogEntry) (entry : LogEntry) :
    launcherAlone (log ++ [entry]) = (launcherAlone log).next entry := by
  rw [launcherAlone, foldl_append]
  rfl

/-- A step that leaves the launcher's text and buffer as they are and records nothing of it. -/
theorem LauncherKept.of_same (h : t.LauncherKept)
    (hlog : launcherAlone u.log = launcherAlone t.log)
    (htext : u.reader.launcherText = t.reader.launcherText)
    (hbuffer : u.reader.lineBuffers.get? .launcher = t.reader.lineBuffers.get? .launcher) :
    u.LauncherKept where
  queued := by rw [htext, hlog, h.queued]
  buffered := by rw [hbuffer, hlog, h.buffered]

/-- The incomplete line is flushed where the stream alone flushes it as well. -/
theorem LauncherKept.flush (h : t.LauncherKept) {entry : LogEntry}
    (hlog : u.log = t.log ++ [entry]) (hentry : ∀ v : LauncherStream, v.next entry = v.flush)
    (happends : t.reader.Appends u.reader)
    (htext : u.reader.textOf t.reader.generation .launcher =
      t.reader.textOf t.reader.generation .launcher ++ renderIncomplete []
      ((t.reader.lineBuffers.get? .launcher).getD []))
    (hbuffer : u.reader.lineBuffers.get? .launcher = none) : u.LauncherKept := by
  have halone : launcherAlone u.log = (launcherAlone t.log).flush := by
    rw [hlog, launcherAlone_append, hentry]
  refine ⟨?_, by rw [hbuffer, halone]; rfl⟩
  rw [happends.launcherText htext, halone, h.queued, h.buffered]
  rfl

theorem LauncherKept.event (h : t.LauncherKept) {result : ReadResult}
    (hreader : u.reader = t.reader.processPipeEvent fd result)
    (hlog : u.log = t.log ++ t.entriesOf fd result) : u.LauncherKept := by
  have happends := Reader.appends_processPipeEvent t.reader fd result
  rw [← hreader] at happends
  rcases t.event_cases fd result with
    ⟨hsame, hentries⟩ | ⟨writer, hwriter, ⟨bytes, hread, hentries⟩ | ⟨hhang, hentries⟩⟩
  · rw [hentries, append_nil] at hlog
    exact h.of_same (by rw [hlog]) (by rw [hreader, hsame]) (by rw [hreader, hsame])
  · rw [← hreader] at hread
    rw [hentries] at hlog
    cases writer with
    | launcher =>
      have htext := hread.text
      rw [flatMap_def] at htext
      have hlines : map (t.reader.render .launcher) (assembleLines
          (t.reader.lineBuffers.get? .launcher) (readText bytes)).1 = _ := map_id _
      rw [hlines] at htext
      constructor
      · rw [happends.launcherText htext, hlog, launcherAlone_append, h.queued, h.buffered]
        rfl
      · rw [hread.buffer, if_pos rfl, hlog, launcherAlone_append, h.buffered]
        rfl
    | worker localRank =>
      refine h.of_same (by rw [hlog, launcherAlone_append]; rfl) ?_ ?_
      · refine (happends.launcherText ?_).trans (append_nil _)
        exact (hread.text_of_ne _ _ fun heq => Writer.noConfusion heq.2).trans
          (append_nil _).symm
      · rw [hread.buffer, if_neg fun heq => by cases heq]
  · rw [← hreader] at hhang
    rw [hentries] at hlog
    cases writer with
    | launcher =>
      exact h.flush hlog (fun _ => rfl) happends hhang.text (by rw [hhang.buffer, if_pos rfl])
    | worker localRank =>
      refine h.of_same (by rw [hlog, launcherAlone_append]; rfl) ?_ ?_
      · refine (happends.launcherText ?_).trans (append_nil _)
        exact (hhang.text_of_ne _ _ fun heq => Writer.noConfusion heq.2).trans
          (append_nil _).symm
      · rw [hhang.buffer, if_neg fun heq => by cases heq]

/-- A clean-up that finds no line of the launcher in the buffer leaves the launcher's stream. -/
theorem LauncherKept.cleanUp (h : t.LauncherKept)
    (hended : t.reader.lineBuffers.get? .launcher = none)
    (hqueue : u.reader.writeQueue = t.reader.cleanupResources.writeQueue)
    (hbuffer : u.reader.lineBuffers.get? .launcher = none) (hlog : u.log = t.log) :
    u.LauncherKept := by
  have hclean := Reader.cleansUp_cleanupResources t.reader
  have htext := hclean.text .launcher
  rw [hended] at htext
  have hkept := (hclean.appends.launcherText htext).trans (append_nil _)
  refine h.of_same (by rw [hlog]) ?_ (hbuffer.trans hended.symm)
  rw [← hkept, Reader.launcherText, Reader.launcherText, hqueue]

theorem launcherKept_create (config : ReaderConfig) : (create config).LauncherKept where
  queued := rfl
  buffered := rfl

theorem LauncherKept.step (h : t.LauncherKept) (hcond : t.LauncherLineEnded a)
    (hmove : Moves t a u) : u.LauncherKept := by
  cases hmove with
  | idle hreader hlog hkeep =>
    exact h.of_same (by rw [hlog]) (by rw [hreader]) (by rw [hreader])
  | event fd result hreader hlog hkeep => exact h.event hreader hlog
  | cleared ha hpc hclear hreader hlog hkeep =>
    subst ha
    exact h.cleanUp (hcond (.inl ⟨hpc, hclear⟩)) (by rw [hreader]) (by rw [hreader]; rfl) hlog
  | exited hreader hlog hkeep =>
    have hclean := Reader.cleansUp_cleanupResources t.reader
    rw [← hreader] at hclean
    exact h.flush hlog (fun _ => rfl) hclean.appends (hclean.text .launcher)
      (hclean.buffer .launcher)
  | dropped hreader hlog hkeep =>
    exact h.of_same (by rw [hlog]) (by rw [hreader]; rfl) (by rw [hreader]; rfl)
  | applied ha hpc hnew happlied =>
    subst ha
    subst happlied
    exact h.cleanUp (hcond (.inr ⟨hpc, hnew⟩)) rfl rfl rfl

/-! ## Clear requests -/

/-- While a clear request is on its way, and after it has been confirmed, no configuration waits
that would register workers, and the confirmation finds none registered. -/
structure ClearsKept (t : ReaderThread) : Prop where
  started : t.pc ≠ .starting → t.active.isSome = true
  cleaned : t.pc = .cleaned ∨ t.pc = .acknowledging → t.reader.NoWorkers
  requested : t.clearPc ≠ .idle → ¬ t.Pending
  acknowledged : t.clearPc ≠ .idle → t.pipesClearedEvent = true → t.reader.NoWorkers
  confirmed : t.confirmed = true → t.reader.NoWorkers ∧ ¬ t.Pending

/-- A step that registers no worker keeps none registered. -/
theorem noWorkers_of_get? {r s : Reader} (h : r.NoWorkers)
    (hfds : ∀ fd writer, s.fdToLocalRank.get? fd = some writer →
      r.fdToLocalRank.get? fd = some writer) : s.NoWorkers :=
  fun fd localRank hfd => h fd localRank (hfds fd (.worker localRank) hfd)

/-- A configuration without worker pipes registers no worker. -/
theorem noWorkers_applyConfig (hwired : t.Wired) (hempty : t.currentConfig.pipes.entries = []) :
    t.applyConfig.reader.NoWorkers := by
  intro fd localRank hfd
  obtain ⟨old, -, hworks⟩ := hwired.inForce
  have hmem := (Reader.worksUnder_applyConfig hworks t.currentConfig).workers fd localRank hfd
  rw [hempty] at hmem
  exact not_mem_nil hmem

/-- The configurations and the requests are as before. -/
structure SameRequests (t u : ReaderThread) : Prop where
  active : u.active = t.active
  current : u.current = t.current
  currentConfig : u.currentConfig = t.currentConfig
  pipesClearedEvent : u.pipesClearedEvent = t.pipesClearedEvent
  clearPc : u.clearPc = t.clearPc
  confirmed : u.confirmed = t.confirmed

theorem SameRequests.pending (h : t.SameRequests u) : u.Pending ↔ t.Pending := by
  unfold Pending
  rw [h.active, h.current, h.currentConfig]

/-- A step of the reader that registers nothing and changes no request. -/
theorem ClearsKept.of_sameRequests (h : t.ClearsKept) (hsame : t.SameRequests u)
    (hfds : ∀ fd writer, u.reader.fdToLocalRank.get? fd = some writer →
      t.reader.fdToLocalRank.get? fd = some writer)
    (hstarted : t.pc ≠ .starting)
    (hcleaned : u.pc = .cleaned ∨ u.pc = .acknowledging → u.reader.NoWorkers) :
    u.ClearsKept where
  started _ := hsame.active ▸ h.started hstarted
  cleaned := hcleaned
  requested hpc := fun hpending => h.requested (hsame.clearPc ▸ hpc) (hsame.pending.mp hpending)
  acknowledged hpc hevent := noWorkers_of_get?
    (h.acknowledged (hsame.clearPc ▸ hpc) (hsame.pipesClearedEvent ▸ hevent)) hfds
  confirmed hconfirmed := by
    obtain ⟨hnone, hpending⟩ := h.confirmed (hsame.confirmed ▸ hconfirmed)
    exact ⟨noWorkers_of_get? hnone hfds, fun hnow => hpending (hsame.pending.mp hnow)⟩

theorem ClearsKept.advance (h : t.ClearsKept) (hwired : t.Wired) (hstep : t.advance = some u) :
    u.ClearsKept := by
  obtain ⟨config, -, hworks⟩ := hwired.inForce
  unfold ReaderThread.advance at hstep
  split at hstep
  · -- `run` begins with the configuration that is current.
    rename_i hpc
    cases hstep
    have hnot : ¬ ReaderThread.Pending { t with active := some t.current, pc := .top } :=
      fun hpending => hpending.2.1 rfl
    exact ⟨fun _ => rfl, fun hnow => absurd hnow (by simp), fun _ => hnot, h.acknowledged,
      fun hconfirmed => ⟨(h.confirmed hconfirmed).1, hnot⟩⟩
  · rename_i hpc
    cases hstep
    refine h.of_sameRequests ⟨rfl, rfl, rfl, rfl, rfl, rfl⟩ (fun _ _ hfd => hfd)
      (by rw [hpc]; simp) fun hnow => ?_
    rcases hnow with hnow | hnow <;> (simp only at hnow; split at hnow <;> cases hnow)
  · rename_i hpc
    cases hstep
    split
    · refine h.of_sameRequests ⟨rfl, rfl, rfl, rfl, rfl, rfl⟩ (get?_of_cleanupResources _)
        (by rw [hpc]; simp) fun _ => Reader.noWorkers_cleanupResources hworks
    · refine h.of_sameRequests ⟨rfl, rfl, rfl, rfl, rfl, rfl⟩ (fun _ _ hfd => hfd)
        (by rw [hpc]; simp) fun hnow => ?_
      rcases hnow with hnow | hnow <;> cases hnow
  · rename_i hpc
    cases hstep
    exact h.of_sameRequests ⟨rfl, rfl, rfl, rfl, rfl, rfl⟩ (fun _ _ hfd => hfd)
      (by rw [hpc]; simp) fun _ => h.cleaned (.inl hpc)
  · -- The confirmation.
    rename_i hpc
    cases hstep
    have hnone := h.cleaned (.inr hpc)
    exact ⟨fun _ => h.started (by rw [hpc]; simp), fun _ => hnone, h.requested,
      fun _ _ => hnone, h.confirmed⟩
  · rename_i hpc
    cases hstep
    split
    · refine h.of_sameRequests ⟨rfl, rfl, rfl, rfl, rfl, rfl⟩ (fun _ _ hfd => hfd)
        (by rw [hpc]; simp) fun hnow => ?_
      rcases hnow with hnow | hnow <;> cases hnow
    · -- Only a configuration without worker pipes can have been waiting.
      rename_i hnew
      have hactive := h.started (by rw [hpc]; simp)
      have hempty : ¬ t.Pending → t.applyConfig.reader.NoWorkers := fun hpending =>
        noWorkers_applyConfig hwired (by
          by_contra hpipes
          exact hpending ⟨hactive, hnew, hpipes⟩)
      have hnot : ¬ t.applyConfig.Pending := fun hpending => hpending.2.1 rfl
      refine ⟨fun _ => rfl, fun hnow => ?_, fun _ => hnot,
        fun hclear _ => hempty (h.requested hclear),
        fun hconfirmed => ⟨hempty (h.confirmed hconfirmed).2, hnot⟩⟩
      rcases hnow with hnow | hnow <;> cases hnow
  · rename_i hpc
    cases hstep
    refine h.of_sameRequests ⟨rfl, rfl, rfl, rfl, rfl, rfl⟩ (fun _ _ hfd => hfd)
      (by rw [hpc]; simp) fun hnow => ?_
    rcases hnow with hnow | hnow <;> cases hnow
  · rename_i hpc
    cases hstep
    exact h.of_sameRequests ⟨rfl, rfl, rfl, rfl, rfl, rfl⟩ (get?_of_cleanupResources _)
      (by rw [hpc]; simp) fun _ => Reader.noWorkers_cleanupResources hworks
  · rename_i hpc
    cases hstep
    refine h.of_sameRequests ⟨rfl, rfl, rfl, rfl, rfl, rfl⟩ (get?_of_dropLauncher t)
      (by rw [hpc]; simp) fun hnow => ?_
    rcases hnow with hnow | hnow <;> cases hnow
  · cases hstep

/-- A step of the reader that only moves it on. -/
theorem ClearsKept.goesOn (h : t.ClearsKept) (hstarted : t.pc ≠ .starting) {pc : Pc}
    (hpc : pc ≠ .cleaned ∧ pc ≠ .acknowledging) : ({ t with pc := pc }).ClearsKept :=
  h.of_sameRequests ⟨rfl, rfl, rfl, rfl, rfl, rfl⟩ (fun _ _ hfd => hfd) hstarted
    fun hnow => absurd hnow (not_or.mpr hpc)

theorem ClearsKept.step (h : t.ClearsKept) (hwired : t.Wired) (hcond : t.ClearsApplied a)
    (hstep : t.step a = some u) : u.ClearsKept := by
  cases a with
  | advance => exact h.advance hwired hstep
  | polled fds =>
    simp only [ReaderThread.step] at hstep
    split at hstep
    · split at hstep <;> cases hstep
      all_goals
        rename_i hpc
        exact h.goesOn (by rw [hpc]; simp) (by simp)
    · cases hstep
  | pollInterrupted | pollFailed =>
    simp only [ReaderThread.step] at hstep
    split at hstep <;> cases hstep
    all_goals
      rename_i hpc
      exact h.goesOn (by rw [hpc]; simp) (by simp)
  | read result =>
    simp only [ReaderThread.step] at hstep
    split at hstep <;> cases hstep
    all_goals
      rename_i hpc
      refine h.of_sameRequests ⟨rfl, rfl, rfl, rfl, rfl, rfl⟩ (get?_of_processPipeEvent _ _ _)
        (by rw [hpc]; simp) fun hnow => ?_
      rcases hnow with hnow | hnow <;> cases hnow
  | updatePipes config =>
    simp only [ReaderThread.step] at hstep
    split at hstep <;> cases hstep
    rename_i hidle
    exact ⟨h.started, h.cleaned, fun hpc => absurd hidle hpc, fun hpc => absurd hidle hpc,
      fun hconfirmed => absurd hconfirmed (by simp)⟩
  | clearAllPipes =>
    simp only [ReaderThread.step] at hstep
    split at hstep <;> cases hstep
    exact ⟨h.started, h.cleaned, fun _ => hcond, fun _ hevent => absurd hevent (by simp),
      h.confirmed⟩
  | requestClear =>
    simp only [ReaderThread.step] at hstep
    split at hstep <;> cases hstep
    rename_i hrequesting
    have hbusy : t.clearPc ≠ .idle := by rw [hrequesting]; simp
    exact ⟨h.started, h.cleaned, fun _ => h.requested hbusy, fun _ => h.acknowledged hbusy,
      h.confirmed⟩
  | waitReturned =>
    simp only [ReaderThread.step] at hstep
    split at hstep <;> cases hstep
    rename_i hwaiting
    have hbusy : t.clearPc ≠ .idle := by rw [hwaiting.1]; simp
    exact ⟨h.started, h.cleaned, fun hpc => absurd rfl hpc, fun hpc => absurd rfl hpc,
      fun _ => ⟨h.acknowledged hbusy hwaiting.2, h.requested hbusy⟩⟩
  | waitTimedOut =>
    simp only [ReaderThread.step] at hstep
    split at hstep <;> cases hstep
    exact ⟨h.started, h.cleaned, fun hpc => absurd rfl hpc, fun hpc => absurd rfl hpc,
      h.confirmed⟩
  | shutdown =>
    cases hstep
    exact ⟨h.started, h.cleaned, h.requested, h.acknowledged, h.confirmed⟩

theorem clearsKept_create (config : ReaderConfig) : (create config).ClearsKept where
  started h := absurd rfl h
  cleaned h := by rcases h with h | h <;> cases h
  requested h := absurd rfl h
  acknowledged h := absurd rfl h
  confirmed h := by cases h

/-! ## Runs -/

/-- What an orderly run keeps. -/
structure Invariant (t : ReaderThread) : Prop where
  wired : t.Wired
  streams : t.Streams
  launcher : t.LauncherKept
  clears : t.ClearsKept

theorem Invariant.step (h : t.Invariant) (hcond : t.Orderly a) (hstep : system.step t a = some u) :
    u.Invariant where
  wired := h.wired.step (moves_step hstep)
  streams := h.streams.step h.wired (moves_step hstep)
  launcher := h.launcher.step hcond.1 (moves_step hstep)
  clears := h.clears.step h.wired hcond.2 hstep

theorem invariant_of_reachable (h : system.Reachable Orderly t) : t.Invariant := by
  refine h.invariant ?_ fun t a u ht hcond hstep => ht.step hcond hstep
  rintro _ ⟨config, rfl⟩
  exact ⟨wired_create config, streams_create config, launcherKept_create config,
    clearsKept_create config⟩

/-- In a run in which no change of cycle finds a line of the launcher in the buffer and no clear
request overtakes a configuration, the cycles are kept apart. -/
theorem cycles_apart_of_orderly {t : ReaderThread} (h : system.Reachable Orderly t) :
    t.CyclesApart := by
  have hinv := invariant_of_reachable h
  exact
    { workers := fun generation localRank config hconfig =>
        (hinv.streams.workers generation localRank config hconfig).queuedOnce
      configured := hinv.streams.configured
      files := hinv.wired.files
      cleared := fun hconfirmed => (hinv.clears.confirmed hconfirmed).1
      launcher := hinv.launcher.queued }

/-- A launcher on descriptor 5 and no workers yet. -/
def launcherOnly : ReaderConfig where
  pipes := .empty
  logFilePath := "job_cycle0.log"
  worldSize := none
  localToGlobalRank := .empty
  launcherPipeFd := some 5
  launcherLogFilePath := some "job.log"
  fds_nodup := by decide
  launcher_apart := by decide

theorem init_launcherOnly : system.init (create launcherOnly) :=
  ⟨launcherOnly, rfl⟩

/-- The first cycle: rank 0 on descriptor 10, with the same launcher. -/
def firstCycle : ReaderConfig where
  pipes := Dict.empty.set 0 10
  logFilePath := "job_cycle1.log"
  worldSize := some 1
  localToGlobalRank := Dict.empty.set 0 0
  launcherPipeFd := some 5
  launcherLogFilePath := some "job.log"
  fds_nodup := by decide
  launcher_apart := by decide

/-- One turn of the loop with a read. -/
def turn (fd : Nat) (bytes : List UInt8) : List Action :=
  [.advance, .advance, .advance, .polled [fd], .read (.data bytes), .advance]

/-- A turn of the loop with a clear request, which the launcher sees confirmed. -/
def clearTurn : List Action :=
  [.clearAllPipes, .requestClear, .advance, .advance, .advance, .advance, .waitReturned]

/-- The first cycle runs, and is cleared between two lines of the launcher. -/
def oneCycle : List Action :=
  .advance :: .updatePipes firstCycle :: turn 5 [0x68, 0x69, 0x0A] ++ turn 10 [0x61, 0x0A] ++
    clearTurn ++ turn 5 [0x79, 0x6F, 0x0A]

/-- The cycles are apart after it. -/
theorem cycles_apart_oneCycle : ∃ t, system.Reachable Orderly t ∧
    (t.confirmed = true ∧ t.reader.launcherText = "hi\nyo\n".toList ∧
      t.reader.textOf 2 (.worker 0) = "0: a\n".toList) ∧ t.CyclesApart := by
  have hrun : (system.execute Orderly (create launcherOnly) oneCycle).any (fun t =>
      t.confirmed && decide (t.reader.launcherText = "hi\nyo\n".toList) &&
        decide (t.reader.textOf 2 (.worker 0) = "0: a\n".toList)) = true := by
    decide +kernel
  obtain ⟨t, hreach, htest⟩ := System.exists_reachable_of_execute init_launcherOnly hrun
  simp only [Bool.and_eq_true, decide_eq_true_eq] at htest
  exact ⟨t, hreach, ⟨htest.1.1, htest.1.2, htest.2⟩, cycles_apart_of_orderly hreach⟩

/-- A clear request between two reads of one line of the launcher. -/
def cutLine : List Action :=
  .advance :: turn 5 [0x68, 0x65, 0x6C] ++ clearTurn ++ turn 5 [0x6C, 0x6F, 0x0A]

/-- A clear request while a configuration waits; the reader applies it afterwards. -/
def overtaken : List Action :=
  .advance :: .updatePipes firstCycle :: clearTurn ++ [.advance, .advance, .advance]

/-- The launcher's line is cut in two by the first run, and in the second a worker is registered
after the clear request has been confirmed. -/
theorem cycles_not_apart :
    (∃ t, system.Reachable (fun _ _ => True) t ∧
      t.reader.launcherText = "hel\nlo\n".toList ∧
      (launcherAlone t.log).queued = "hello\n".toList ∧ ¬ t.CyclesApart) ∧
    ∃ t, system.Reachable (fun _ _ => True) t ∧ t.confirmed = true ∧
      t.reader.fdToLocalRank.get? 10 = some (.worker 0) ∧ ¬ t.CyclesApart := by
  constructor
  · have hrun : (system.execute (fun _ _ => True) (create launcherOnly) cutLine).any (fun t =>
        decide (t.reader.launcherText = "hel\nlo\n".toList) &&
          decide ((launcherAlone t.log).queued = "hello\n".toList)) = true := by
      decide +kernel
    obtain ⟨t, hreach, htest⟩ := System.exists_reachable_of_execute init_launcherOnly hrun
    simp only [Bool.and_eq_true, decide_eq_true_eq] at htest
    refine ⟨t, hreach, htest.1, htest.2, fun hapart => ?_⟩
    have hsame := hapart.launcher
    rw [htest.1, htest.2] at hsame
    exact absurd hsame (by decide)
  · have hrun : (system.execute (fun _ _ => True) (create launcherOnly) overtaken).any (fun t =>
        t.confirmed && decide (t.reader.fdToLocalRank.get? 10 = some (.worker 0))) = true := by
      decide +kernel
    obtain ⟨t, hreach, htest⟩ := System.exists_reachable_of_execute init_launcherOnly hrun
    simp only [Bool.and_eq_true, decide_eq_true_eq] at htest
    exact ⟨t, hreach, htest.1, htest.2, fun hapart => hapart.cleared htest.1 10 0 htest.2⟩

end ReaderThread

end ResiliencyExt.FaultTolerance.PerCycleLogs
