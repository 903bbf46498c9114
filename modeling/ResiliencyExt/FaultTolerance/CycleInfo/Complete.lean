import Mathlib.Data.List.Nodup
import ResiliencyExt.FaultTolerance.CycleInfo.Writer

set_option autoImplicit false

/-!
# Cycle info: complete records

Every cycle that was started is written once as created and once as ended, in the order
of the calls, when `shutdown` returns, and the symlink of a job follows its creations.
Two things can go wrong.  The thread may leave after `shutdown` has set its flag and before
it has put the last update; and a temporary symlink that an earlier process has left makes a
creation fail to move the symlink of its job.  A run in which neither happens, nor a number
that the message cannot hold, keeps `Inv`, from which the records follow.  The reporter ends
its cycle before it shuts the writer down, so that the first cannot happen to it.
-/

namespace ResiliencyExt.FaultTolerance.CycleInfo

open Foundation List
open Option (some toList_none)

/-! ## Records -/

/-- What the files of the cycles say. -/
abbrev Records :=
  CycleId → Option NVRxCycleInfo

def Records.apply (records : Records) (write : Write) : Records := fun id =>
  match write with
  | .created p => if id = p.id then some p.message else records id
  | .updated id' cycleEndTime =>
    if id = id' then (records id').map (·.ended cycleEndTime) else records id

/-- The records after the writes of a log. -/
def replay (log : List Write) : Records :=
  log.foldl Records.apply fun _ => none

/-- The most recently created cycle of a job. -/
def mostRecent (log : List Write) (jobId : String) : Option CycleId :=
  log.foldl (fun recent write =>
    match write with
    | .created p => if jobId = p.id.jobId then some p.id else recent
    | .updated .. => recent) none

variable (log : List Write) (id : CycleId)

theorem replay_concat_created (p : CyclePayload) (id : CycleId) :
    replay (log ++ [.created p]) id = if id = p.id then some p.message else replay log id := by
  rw [replay, foldl_append]
  rfl

theorem replay_concat_updated (cycleEndTime : IsoTime) (other : CycleId) :
    replay (log ++ [.updated id cycleEndTime]) other =
      if other = id then (replay log id).map (·.ended cycleEndTime) else replay log other := by
  rw [replay, foldl_append]
  rfl

theorem mostRecent_concat_created (p : CyclePayload) (jobId : String) :
    mostRecent (log ++ [.created p]) jobId =
      if jobId = p.id.jobId then some p.id else mostRecent log jobId := by
  rw [mostRecent, foldl_append]
  rfl

theorem mostRecent_concat_updated (cycleEndTime : IsoTime) (jobId : String) :
    mostRecent (log ++ [.updated id cycleEndTime]) jobId = mostRecent log jobId := by
  rw [mostRecent, foldl_append]
  rfl

/-- The directory shows what has been written. -/
structure Recorded (dir : Directory) (log : List Write) : Prop where
  file : ∀ id msg, replay log id = some msg →
    dir (cycleInfoFilename id) = some (.cycleInfo msg)
  current : ∀ jobId id, mostRecent log jobId = some id →
    dir (currentSymlinkName jobId) = some (.symlink (cycleInfoFilename id))

theorem recorded_nil (dir : Directory) : Recorded dir [] :=
  ⟨nofun, nofun⟩

theorem Recorded.create {dir : Directory} {log : List Write} (h : Recorded dir log)
    {p : CyclePayload} (hfits : p.id.Fits)
    (htmp : dir (tmpName (currentSymlinkName p.id.jobId)) = none) :
    Recorded (doCreate dir p).1 (log ++ [.created p]) where
  file id msg hmsg := by
    rw [replay_concat_created] at hmsg
    rw [doCreate_filename hfits htmp]
    by_cases hid : id = p.id
    · rw [if_pos hid] at hmsg ⊢
      rw [some.inj hmsg]
    · rw [if_neg hid] at hmsg ⊢
      exact h.file id msg hmsg
  current jobId id hid := by
    rw [mostRecent_concat_created] at hid
    rw [doCreate_symlink hfits htmp]
    by_cases hjob : jobId = p.id.jobId
    · rw [if_pos hjob] at hid ⊢
      rw [some.inj hid]
    · rw [if_neg hjob] at hid ⊢
      exact h.current jobId id hid

theorem Recorded.update {dir : Directory} {log : List Write} (h : Recorded dir log)
    {id : CycleId} {msg : NVRxCycleInfo} (hmsg : replay log id = some msg)
    (hgeneration : msg.generation + 1 < 18446744073709551616) (cycleEndTime : IsoTime) :
    Recorded (doUpdate dir id cycleEndTime).1 (log ++ [.updated id cycleEndTime]) where
  file other msg' hmsg' := by
    rw [replay_concat_updated] at hmsg'
    rw [doUpdate_filename (h.file id msg hmsg) hgeneration]
    by_cases hother : other = id
    · rw [if_pos hother, hmsg] at hmsg'
      rw [if_pos hother, ← some.inj hmsg']
    · rw [if_neg hother] at hmsg' ⊢
      exact h.file other msg' hmsg'
  current jobId recent hrecent := by
    rw [mostRecent_concat_updated] at hrecent
    rw [doUpdate_symlink (h.file id msg hmsg) hgeneration]
    exact h.current jobId recent hrecent

/-! ## The writes of whole cycles -/

/-- A cycle with the time of its end. -/
abbrev EndedCycle :=
  CyclePayload × IsoTime

def cycleWrites (e : EndedCycle) : List Write :=
  [.created e.1, .updated e.1.id e.2]

/-- The writes of cycles, of which the last may not have ended. -/
def cyclesWrites (ended : List EndedCycle) (opened : Option CyclePayload) : List Write :=
  ended.flatMap cycleWrites ++ opened.toList.map .created

/-- An update comes right after the creation of its cycle. -/
theorem created_of_updated {opened : Option CyclePayload} {id : CycleId} {cycleEndTime : IsoTime}
    (ended : List EndedCycle) : ∀ {log later : List Write},
      log ++ .updated id cycleEndTime :: later = cyclesWrites ended opened →
        ∃ earlier p, log = earlier ++ [.created p] ∧ p.id = id := by
  induction ended with
  | nil =>
    intro log later h
    have hmem : Write.updated id cycleEndTime ∈ cyclesWrites [] opened :=
      h ▸ mem_append_right log mem_cons_self
    obtain ⟨p, -, hp⟩ := mem_map.mp hmem
    exact absurd hp nofun
  | cons e rest ih =>
    intro log later h
    match log, h with
    | [], h => exact absurd (List.cons.inj h).1 nofun
    | [first], h =>
      obtain ⟨rfl, hrest⟩ := List.cons.inj h
      exact ⟨[], e.1, rfl, (Write.updated.inj (List.cons.inj hrest).1).1.symm⟩
    | first :: second :: log, h =>
      obtain ⟨earlier, p, hlog, hid⟩ := ih (List.cons.inj (List.cons.inj h).2).2
      exact ⟨first :: second :: earlier, p, by rw [hlog]; rfl, hid⟩

/-- The writes of other cycles change no record. -/
theorem foldl_apply_of_not_mem {ended : List EndedCycle} {id : CycleId}
    (h : id ∉ ended.map fun e => e.1.id) : ∀ records : Records,
      (ended.flatMap cycleWrites).foldl Records.apply records id = records id := by
  induction ended with
  | nil => exact fun _ => rfl
  | cons e rest ih =>
    intro records
    have hne : id ≠ e.1.id := fun heq => h (heq ▸ mem_cons_self)
    rw [flatMap_cons, foldl_append,
      ih fun hmem => h (mem_cons_of_mem _ hmem)]
    simp [cycleWrites, Records.apply, hne]

/-- Each of the cycles is recorded with its end. -/
theorem replay_flatMap {ended : List EndedCycle} (hnodup : (ended.map fun e => e.1.id).Nodup)
    {e : EndedCycle} (he : e ∈ ended) :
    replay (ended.flatMap cycleWrites) e.1.id = some (e.1.message.ended e.2) := by
  rw [replay]
  generalize (fun _ => none : Records) = records
  induction ended generalizing records with
  | nil => exact absurd he not_mem_nil
  | cons first rest ih =>
    obtain ⟨hfirst, hrest⟩ := nodup_cons.mp hnodup
    rw [flatMap_cons, foldl_append]
    rcases mem_cons.mp he with rfl | hmem
    · rw [foldl_apply_of_not_mem hfirst]
      simp [cycleWrites, Records.apply]
    · exact ih hrest hmem _

/-! ## The invariant -/

def Task.writes : Task → List Write
  | .create p => [.created p]
  | .update id cycleEndTime => [.updated id cycleEndTime]
  | .shutdown => []

def WorkerPhase.writes : WorkerPhase → List Write
  | .busy task => task.writes
  | _ => []

def CyclePayload.number (p : CyclePayload) : Int :=
  p.id.cycleNumber

/-- The cycles `ended` and `opened` have been started, and what has been asked for is written or
on its way to the thread. -/
structure Inv (closes : Bool) (ended : List EndedCycle) (opened : Option CyclePayload)
    (s : State) : Prop where
  started : s.started = ended.map Prod.fst ++ opened.toList
  requested : s.requested = cyclesWrites ended opened
  currentCycle : s.currentCycle = opened.map (·.id)
  distinct : (s.started.map CyclePayload.number).Nodup
  calls : s.shutdownRequested = false →
    Orderly closes s.currentCycle (s.started.map CyclePayload.number).reverse s.calls
  ready : s.shutdownRequested = false → s.phase = .ready
  closing : ∀ now, s.phase = .closing now → closes = true → opened = none
  closed : s.shutdownRequested = true → opened = none ∨ ∃ now, s.phase = .closing now
  tasks : s.log ++ s.worker.writes ++ s.queue.flatMap Task.writes = s.requested
  polling : s.worker = .polling → s.shutdownRequested = true
  exited : s.worker = .exited → s.shutdownRequested = true ∧ opened = none ∧
    s.queue.flatMap Task.writes = []
  returned : s.returned = true → s.worker = .exited
  recorded : Recorded s.dir s.log

theorem inv_start {client : Client} (dir : Directory) :
    Inv client.closes [] none (.start client.writerCalls dir) where
  started := rfl
  requested := rfl
  currentCycle := rfl
  distinct := nodup_nil
  calls _ := client.orderly
  ready _ := rfl
  closing _ h := nomatch h
  closed h := nomatch h
  tasks := rfl
  polling h := nomatch h
  exited h := nomatch h
  returned h := nomatch h
  recorded := recorded_nil dir

/-! ## The condition -/

def Phase.isClosing : Phase → Bool
  | .closing _ => true
  | _ => false

/-- A creation can hold its numbers and finds no temporary symlink; and the thread does not leave
while `shutdown` still has the last update to put, unless its client rules this out. -/
def WorkerPhase.Meets (closes : Bool) (s : State) : WorkerPhase → Prop
  | .busy (.create p) =>
    p.id.Fits ∧ (s.dir (tmpName (currentSymlinkName p.id.jobId))).isNone = true
  | .polling =>
    closes = false → s.queue.isEmpty = true → s.phase.isClosing = true →
      s.currentCycle.isNone = true
  | _ => True

def State.Meets (closes : Bool) (s : State) : Thread → Prop
  | .main => True
  | .worker => s.worker.Meets closes s

instance (closes : Bool) (s : State) : ∀ w : WorkerPhase, Decidable (w.Meets closes s)
  | .busy (.create _) => inferInstanceAs (Decidable (_ ∧ _))
  | .busy (.update ..) => .isTrue trivial
  | .busy .shutdown => .isTrue trivial
  | .polling => inferInstanceAs (Decidable (_ → _ → _ → _))
  | .checking => .isTrue trivial
  | .waiting => .isTrue trivial
  | .exited => .isTrue trivial

instance (closes : Bool) (s : State) : ∀ a : Thread, Decidable (s.Meets closes a)
  | .main => .isTrue trivial
  | .worker => inferInstanceAs (Decidable (s.worker.Meets closes s))

/-! ## The calling thread -/

namespace Inv

variable {closes : Bool} {ended : List EndedCycle} {opened : Option CyclePayload} {s : State}

variable {p : CyclePayload} {rest : List WriterCall}

/-- What a call puts into the queue comes after all that has been asked for. -/
theorem tasks_put (h : Inv closes ended opened s) (task : Task) :
    s.log ++ s.worker.writes ++ (s.queue ++ [task]).flatMap Task.writes =
      s.requested ++ task.writes := by
  rw [flatMap_append, ← append_assoc, h.tasks, flatMap_singleton]

theorem opened_eq_none (h : Inv closes ended opened s) (hcurrent : s.currentCycle = none) :
    opened = none :=
  Option.map_eq_none_iff.mp (h.currentCycle.symm.trans hcurrent)

theorem not_exited (h : Inv closes ended opened s) (hflag : s.shutdownRequested = false) :
    s.worker ≠ .exited := fun hexited =>
  Bool.false_ne_true (hflag.symm.trans (h.exited hexited).1)

theorem requested_end (h : Inv closes ended (some p) s) (cycleEndTime : IsoTime) :
    s.requested ++ [.updated p.id cycleEndTime] =
      cyclesWrites (ended ++ [(p, cycleEndTime)]) none := by
  rw [h.requested, cyclesWrites, cyclesWrites, flatMap_append, append_assoc,
    toList_none, map_nil, append_nil]
  rfl

theorem started_end (h : Inv closes ended (some p) s) (cycleEndTime : IsoTime) :
    s.started = (ended ++ [(p, cycleEndTime)]).map Prod.fst ++
      (none : Option CyclePayload).toList := by
  rw [h.started, map_append, toList_none, append_nil]
  rfl

section

variable (h : Inv closes ended opened s)
include h

theorem writeCycleStart (hcalls : s.calls = .writeCycleStart p :: rest) :
    ∃ ended' opened', Inv closes ended' opened' { s.writeCycleStart p with calls := rest } := by
  by_cases hflag : s.shutdownRequested = true
  · refine ⟨ended, opened, ?_⟩
    rw [State.writeCycleStart, if_pos hflag]
    exact { h with calls := fun hnot => absurd (hnot.symm.trans hflag) Bool.false_ne_true }
  · have hnot : s.shutdownRequested = false := Bool.eq_false_iff.mpr hflag
    have horderly := h.calls hnot
    rw [hcalls] at horderly
    obtain ⟨hcurrent, hnew, hrest⟩ := horderly
    obtain rfl := h.opened_eq_none hcurrent
    refine ⟨ended, some p, ?_⟩
    rw [State.writeCycleStart, if_neg hflag]
    have hstarted : ((s.started ++ [p]).map CyclePayload.number).reverse =
        p.id.cycleNumber :: (s.started.map CyclePayload.number).reverse := by
      rw [map_append, reverse_append]
      rfl
    exact
      { started := by
          rw [h.started, toList_none, append_nil]
          rfl
        requested := by
          rw [h.requested, cyclesWrites, cyclesWrites, toList_none, map_nil,
            append_nil]
          rfl
        currentCycle := rfl
        distinct := by
          rw [← nodup_reverse, hstarted]
          exact nodup_cons.mpr ⟨hnew, nodup_reverse.mpr h.distinct⟩
        calls := fun _ => by
          rw [hstarted]
          exact hrest
        ready := h.ready
        closing := fun now hnow => absurd ((h.ready hnot).symm.trans hnow) nofun
        closed := fun hyes => absurd hyes hflag
        tasks := h.tasks_put (.create p)
        polling := h.polling
        exited := fun hexited => absurd hexited (h.not_exited hnot)
        returned := h.returned
        recorded := h.recorded }

theorem updateCycleEnd {id : CycleId} {cycleEndTime : IsoTime}
    (hcalls : s.calls = .updateCycleEnd id cycleEndTime :: rest) :
    ∃ ended' opened',
      Inv closes ended' opened' { s.updateCycleEnd id cycleEndTime with calls := rest } := by
  by_cases hflag : s.shutdownRequested = true
  · refine ⟨ended, opened, ?_⟩
    rw [State.updateCycleEnd, if_pos hflag]
    exact { h with calls := fun hnot => absurd (hnot.symm.trans hflag) Bool.false_ne_true }
  · have hnot : s.shutdownRequested = false := Bool.eq_false_iff.mpr hflag
    have horderly := h.calls hnot
    rw [hcalls] at horderly
    obtain ⟨hcurrent, hrest⟩ := horderly
    obtain ⟨p, rfl, rfl⟩ := Option.map_eq_some_iff.mp (h.currentCycle.symm.trans hcurrent)
    refine ⟨ended ++ [(p, cycleEndTime)], none, ?_⟩
    rw [State.updateCycleEnd, if_neg hflag, if_pos hcurrent]
    exact
      { started := h.started_end cycleEndTime
        requested := h.requested_end cycleEndTime
        currentCycle := rfl
        distinct := h.distinct
        calls := fun _ => hrest
        ready := h.ready
        closing := fun _ _ _ => rfl
        closed := fun _ => .inl rfl
        tasks := h.tasks_put (.update p.id cycleEndTime)
        polling := h.polling
        exited := fun hexited => absurd hexited (h.not_exited hnot)
        returned := h.returned
        recorded := h.recorded }

theorem requestShutdown (hready : s.phase = .ready) {now : IsoTime}
    (hcalls : s.calls = .shutdown now :: rest) :
    Inv closes ended opened
      { s with shutdownRequested := true, phase := .closing now, calls := rest } :=
  { h with
    calls := nofun
    ready := nofun
    closing := fun _ _ hcloses => by
      by_cases hflag : s.shutdownRequested = true
      · refine (h.closed hflag).resolve_right ?_
        rintro ⟨_, hclosing⟩
        exact absurd (hready.symm.trans hclosing) nofun
      · have horderly := h.calls (Bool.eq_false_iff.mpr hflag)
        rw [hcalls] at horderly
        exact h.opened_eq_none (horderly hcloses)
    closed := fun _ => .inr ⟨now, rfl⟩
    polling := fun _ => rfl
    exited := fun hexited => ⟨rfl, (h.exited hexited).2⟩ }

theorem closeCycle {now : IsoTime} (hclosing : s.phase = .closing now) :
    ∃ ended' opened', Inv closes ended' opened' { s.closeCycle now with phase := .signalling } := by
  have hflag : s.shutdownRequested = true := by
    by_contra hnot
    exact absurd ((h.ready (Bool.eq_false_iff.mpr hnot)).symm.trans hclosing) nofun
  cases hcurrent : s.currentCycle with
  | none =>
    obtain rfl := h.opened_eq_none hcurrent
    refine ⟨ended, none, ?_⟩
    rw [State.closeCycle, hcurrent]
    exact
      { h with
        currentCycle := hcurrent
        calls := fun hnot => absurd (hnot.symm.trans hflag) Bool.false_ne_true
        ready := fun hnot => absurd (hnot.symm.trans hflag) Bool.false_ne_true
        closing := fun _ _ _ => rfl
        closed := fun _ => .inl rfl }
  | some id =>
    obtain ⟨p, rfl, rfl⟩ := Option.map_eq_some_iff.mp (h.currentCycle.symm.trans hcurrent)
    refine ⟨ended ++ [(p, now)], none, ?_⟩
    rw [State.closeCycle, hcurrent]
    exact
      { started := h.started_end now
        requested := h.requested_end now
        currentCycle := rfl
        distinct := h.distinct
        calls := fun hnot => absurd (hnot.symm.trans hflag) Bool.false_ne_true
        ready := fun hnot => absurd (hnot.symm.trans hflag) Bool.false_ne_true
        closing := fun _ _ _ => rfl
        closed := fun _ => .inl rfl
        tasks := h.tasks_put (.update p.id now)
        polling := h.polling
        exited := fun hexited => absurd (h.exited hexited).2.1 nofun
        returned := h.returned
        recorded := h.recorded }

theorem main {t : State} (hstep : s.main = some t) :
    ∃ ended' opened', Inv closes ended' opened' t := by
  unfold State.main at hstep
  split at hstep
  · rename_i hready
    split at hstep
    · exact absurd hstep nofun
    · rename_i hcalls
      exact some.inj hstep ▸ h.writeCycleStart hcalls
    · rename_i hcalls
      exact some.inj hstep ▸ h.updateCycleEnd hcalls
    · rename_i hcalls
      exact some.inj hstep ▸ ⟨_, _, h.requestShutdown hready hcalls⟩
  · rename_i hclosing
    exact some.inj hstep ▸ h.closeCycle hclosing
  · rename_i hsignalling
    have hput : s.log ++ s.worker.writes ++ (s.queue ++ [Task.shutdown]).flatMap Task.writes =
        s.requested := (h.tasks_put .shutdown).trans (append_nil _)
    have hflag : s.shutdownRequested = true := by
      by_contra hnot
      exact absurd ((h.ready (Bool.eq_false_iff.mpr hnot)).symm.trans hsignalling) nofun
    have hopened : opened = none := by
      refine (h.closed hflag).resolve_right ?_
      rintro ⟨_, hclosing⟩
      exact absurd (hsignalling.symm.trans hclosing) nofun
    refine some.inj hstep ▸ ⟨ended, opened, { h with
      ready := fun hnot => absurd (hnot.symm.trans hflag) Bool.false_ne_true
      closing := fun _ _ _ => hopened
      closed := fun _ => .inl hopened
      tasks := hput
      exited := fun hexited => ⟨hflag, hopened, ?_⟩ }⟩
    rw [flatMap_append, (h.exited hexited).2.2]
    rfl
  · rename_i hjoining
    split at hstep
    · rename_i hexited
      exact some.inj hstep ▸ ⟨ended, opened, { h with
        ready := fun _ => rfl
        closing := fun _ _ _ => (h.exited hexited).2.1
        closed := fun _ => .inl (h.exited hexited).2.1
        returned := fun _ => hexited }⟩
    · exact absurd hstep nofun

/-! ## The thread -/

theorem perform {task : Task} (hbusy : s.worker = .busy task)
    (hmeets : (WorkerPhase.busy task).Meets closes s) :
    (s.perform task).log = s.log ++ task.writes ∧
      Recorded (s.perform task).dir (s.perform task).log := by
  have htasks : s.log ++ task.writes ++ s.queue.flatMap Task.writes = s.requested := by
    have hall := h.tasks
    rw [hbusy] at hall
    exact hall
  cases task with
  | create p =>
    have htmp := Option.isNone_iff_eq_none.mp hmeets.2
    have hlog : (s.perform (.create p)).log = s.log ++ [.created p] := by
      rw [State.perform, doCreate_eq hmeets.1 htmp]
    refine ⟨hlog, ?_⟩
    rw [hlog]
    exact h.recorded.create hmeets.1 htmp
  | update id cycleEndTime =>
    rw [h.requested, append_assoc] at htasks
    obtain ⟨earlier, p, hearlier, rfl⟩ := created_of_updated ended htasks
    have hmsg : replay s.log p.id = some p.message := by
      rw [hearlier, replay_concat_created, if_pos rfl]
    have hgeneration : p.message.generation + 1 < 18446744073709551616 := by
      change 0 + 1 < 18446744073709551616
      decide
    have hlog : (s.perform (.update p.id cycleEndTime)).log =
        s.log ++ [.updated p.id cycleEndTime] := by
      rw [State.perform, doUpdate_eq (h.recorded.file p.id _ hmsg) hgeneration]
    refine ⟨hlog, ?_⟩
    rw [hlog]
    exact h.recorded.update hmsg hgeneration cycleEndTime
  | shutdown => exact ⟨(append_nil _).symm, h.recorded⟩

/-- The thread takes the next task. -/
theorem take {task : Task} {rest : List Task} (hwrites : s.worker.writes = [])
    (hqueue : s.queue = task :: rest) (hrunning : s.worker ≠ .exited) :
    Inv closes ended opened { s with queue := rest, worker := .busy task } :=
  { h with
    tasks := by
      rw [← h.tasks, hwrites, hqueue, append_nil, flatMap_cons, ← append_assoc]
      rfl
    polling := nofun
    exited := nofun
    returned := fun hreturned => absurd (h.returned hreturned) hrunning }

theorem work (hmeets : s.Meets closes .worker) {t : State} (hstep : s.work = some t) :
    Inv closes ended opened t := by
  unfold State.work at hstep
  split at hstep
  · rename_i hchecking
    obtain rfl := some.inj hstep
    have hall := h.tasks
    rw [hchecking] at hall
    by_cases hflag : s.shutdownRequested = true
    · rw [if_pos hflag]
      exact { h with
        tasks := hall
        polling := fun _ => hflag
        exited := nofun
        returned := fun hreturned =>
          absurd (hchecking.symm.trans (h.returned hreturned)) nofun }
    · rw [if_neg hflag]
      exact { h with
        tasks := hall
        polling := nofun
        exited := nofun
        returned := fun hreturned =>
          absurd (hchecking.symm.trans (h.returned hreturned)) nofun }
  · rename_i hwaiting
    split at hstep
    · exact absurd hstep nofun
    · rename_i hqueue
      refine some.inj hstep ▸ h.take ?_ hqueue ?_
      · rw [hwaiting]
        rfl
      · rw [hwaiting]
        exact nofun
  · rename_i hpolling
    split at hstep
    · rename_i hqueue
      have hflag := h.polling hpolling
      have hopened : opened = none := by
        rcases h.closed hflag with hnone | ⟨now, hclosing⟩
        · exact hnone
        · cases hcloses : closes with
          | true => exact h.closing now hclosing hcloses
          | false =>
            rw [State.Meets, hpolling] at hmeets
            have hcurrent := hmeets hcloses (by rw [hqueue]; rfl) (by rw [hclosing]; rfl)
            exact h.opened_eq_none (Option.isNone_iff_eq_none.mp hcurrent)
      have hall := h.tasks
      rw [hpolling] at hall
      exact some.inj hstep ▸ { h with
        tasks := hall
        polling := nofun
        exited := fun _ => ⟨hflag, hopened, by rw [hqueue]; rfl⟩
        returned := fun _ => rfl }
    · rename_i hqueue
      refine some.inj hstep ▸ h.take ?_ hqueue ?_
      · rw [hpolling]
        rfl
      · rw [hpolling]
        exact nofun
  · rename_i task hbusy
    rw [State.Meets, hbusy] at hmeets
    obtain ⟨hlog, hrecorded⟩ := h.perform hbusy hmeets
    have hall := h.tasks
    rw [hbusy, WorkerPhase.writes, ← hlog] at hall
    obtain rfl := some.inj hstep
    cases task <;> exact { h with
      tasks := (congrArg (· ++ _) (append_nil _)).trans hall
      recorded := hrecorded
      polling := nofun
      exited := nofun
      returned := fun hreturned => absurd (hbusy.symm.trans (h.returned hreturned)) nofun }
  · exact absurd hstep nofun

end

end Inv

/-! ## Complete records -/

/-- When `shutdown` has returned, each started cycle has been written as created and as ended, in
the order of the calls, and its file says so.  The symlink of a job names its most recent cycle. -/
structure State.Complete (s : State) : Prop where
  ended : s.returned = true → ∃ ended : List EndedCycle, ended.map Prod.fst = s.started ∧
    s.requested = ended.flatMap cycleWrites ∧ s.log = s.requested ∧
      ∀ e ∈ ended,
        s.dir (cycleInfoFilename e.1.id) = some (.cycleInfo (e.1.message.ended e.2))
  current : ∀ jobId id, mostRecent s.log jobId = some id →
    s.dir (currentSymlinkName jobId) = some (.symlink (cycleInfoFilename id))

theorem Inv.complete {closes : Bool} {ended : List EndedCycle} {opened : Option CyclePayload}
    {s : State} (h : Inv closes ended opened s) : s.Complete where
  ended hreturned := by
    have hexited := h.returned hreturned
    obtain ⟨-, rfl, hqueue⟩ := h.exited hexited
    have hstarted : s.started = ended.map Prod.fst := h.started.trans (append_nil _)
    have hrequested : s.requested = ended.flatMap cycleWrites :=
      h.requested.trans (append_nil _)
    have hlog : s.log = s.requested := by
      rw [← h.tasks, hexited, hqueue, append_nil]
      exact (append_nil _).symm
    have hdistinct : (ended.map fun e => e.1.id).Nodup := by
      refine List.Nodup.of_map CycleId.cycleNumber ?_
      have hnumbers := h.distinct
      rw [hstarted, map_map] at hnumbers
      rw [map_map]
      exact hnumbers
    refine ⟨ended, hstarted.symm, hrequested, hlog, fun e he => h.recorded.file _ _ ?_⟩
    rw [hlog, hrequested]
    exact replay_flatMap hdistinct he
  current := h.recorded.current

/-- A complete log has two writes for each cycle. -/
theorem State.Complete.length_log {s : State} (h : s.Complete) (hreturned : s.returned = true) :
    s.log.length = 2 * s.started.length := by
  obtain ⟨ended, hstarted, hrequested, hlog, -⟩ := h.ended hreturned
  rw [hlog, hrequested, ← hstarted, length_map, length_flatMap]
  simp [cycleWrites, Nat.mul_comm]

/-- Every run whose steps meet the condition records every cycle complete. -/
theorem complete_of_reachable (client : Client) {s : State}
    (h : client.system.Reachable (State.Meets client.closes) s) : s.Complete := by
  have hinit : ∀ s, client.system.init s → ∃ ended opened, Inv client.closes ended opened s := by
    rintro _ ⟨dir, rfl⟩
    exact ⟨[], none, inv_start dir⟩
  have hstep : ∀ s a t, (∃ ended opened, Inv client.closes ended opened s) →
      s.Meets client.closes a → client.system.step s a = some t →
        ∃ ended opened, Inv client.closes ended opened t := by
    rintro s a t ⟨ended, opened, hinv⟩ hmeets hstep
    cases a with
    | main => exact hinv.main hstep
    | worker => exact ⟨ended, opened, hinv.work hmeets hstep⟩
  obtain ⟨ended, opened, hinv⟩ := h.invariant hinit hstep
  exact hinv.complete

theorem Client.init_start (client : Client) (dir : Directory) :
    client.system.init (.start client.writerCalls dir) :=
  ⟨dir, rfl⟩

def firstCycle : CyclePayload where
  id := ⟨"job", 0, 0⟩
  cycleStartTime := ⟨"2024-01-01T00:00:00Z", by decide⟩
  cycleLogFile := "/log"
  activeNodes := "node001"
  standbyNodes := ""
  activeRanks := "0"

def oneHourLater : IsoTime :=
  ⟨"2024-01-01T01:00:00Z", by decide⟩

/-- A launcher that fails in its first cycle: it shuts the writer down without ending it. -/
def failedLauncher : Client :=
  .writer [.writeCycleStart firstCycle, .shutdown oneHourLater] ⟨rfl, not_mem_nil, nofun⟩

theorem complete_of_reachable_failedLauncher :
    ∃ s, failedLauncher.system.Reachable (State.Meets failedLauncher.closes) s ∧
      s.returned = true ∧ s.Complete := by
  have hrun : (failedLauncher.system.execute (State.Meets failedLauncher.closes)
      (.start failedLauncher.writerCalls fun _ => none)
      [.main, .worker, .worker, .worker, .worker, .main, .main, .main, .worker, .worker, .worker,
        .worker, .worker, .worker, .worker, .main]).any State.returned = true := by
    decide +kernel
  obtain ⟨s, hreach, hreturned⟩ := System.exists_reachable_of_execute (Client.init_start _ _) hrun
  exact ⟨s, hreach, hreturned, complete_of_reachable failedLauncher hreach⟩

/-- A reporter whose first cycle finds the temporary symlink of a process that crashed. -/
def restartedLauncher : Client :=
  .reporter [.reportCycleStart ⟨firstCycle.id, "/log", "node001", "", "0"⟩ oneHourLater
    oneHourLater]

/-- In the first run the thread leaves between the flag and the last update of `shutdown`.  In the
second the first creation leaves the job without a current symlink. -/
theorem not_complete_of_reachable :
    (∃ s, failedLauncher.system.Reachable (fun _ _ => True) s ∧ ¬ s.Complete) ∧
      ∃ s, restartedLauncher.system.Reachable (fun _ _ => True) s ∧ ¬ s.Complete := by
  constructor
  · have hrun : (failedLauncher.system.execute (fun _ _ => True)
        (.start failedLauncher.writerCalls fun _ => none)
        [.main, .worker, .worker, .main, .worker, .worker, .worker, .main, .main, .main]).any
        (fun s => s.returned && decide (s.log.length ≠ 2 * s.started.length)) = true := by
      decide +kernel
    obtain ⟨s, hreach, htest⟩ := System.exists_reachable_of_execute (Client.init_start _ _) hrun
    obtain ⟨hreturned, hlength⟩ := (Bool.and_eq_true _ _).mp htest
    exact ⟨s, hreach, fun h => of_decide_eq_true hlength (h.length_log hreturned)⟩
  · have hrun : (restartedLauncher.system.execute (fun _ _ => True)
        (.start restartedLauncher.writerCalls fun name =>
          if name = tmpName (currentSymlinkName "job") then some (.symlink []) else none)
        [.main, .worker, .worker, .worker]).any
        (fun s => decide (mostRecent s.log "job" = some firstCycle.id) &&
          (s.dir (currentSymlinkName "job")).isNone) = true := by
      decide +kernel
    obtain ⟨s, hreach, htest⟩ := System.exists_reachable_of_execute (Client.init_start _ _) hrun
    obtain ⟨hrecent, hnone⟩ := (Bool.and_eq_true _ _).mp htest
    refine ⟨s, hreach, fun h => ?_⟩
    have hcurrent := h.current "job" firstCycle.id (of_decide_eq_true hrecent)
    rw [Option.isNone_iff_eq_none.mp hnone] at hcurrent
    exact nomatch hcurrent

end ResiliencyExt.FaultTolerance.CycleInfo
