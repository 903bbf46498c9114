import ResiliencyExt.Foundation.Dict
import ResiliencyExt.Foundation.System

set_option autoImplicit false

/-!
# Request coalescing

`RequestCoalescer` on one event loop.  A request is a task that may be interrupted, and
cancelled, where it awaits: at the lock, in the compute function, and in the wait for the
result of another task.  What stands under the lock contains no await, so it is one step.

A future is told by the task that has created it.  Times are numbers of clock ticks.
-/

namespace ResiliencyExt.Attribution

open Foundation

/-! ## Entries -/

structure FileMetadata where
  mtime : Nat
  size : Nat
  deriving DecidableEq, Repr

/-- A result in the cache. -/
inductive Computed (Value : Type) where
  | value (v : Value)
  /-- `logsage_timeout_payload` -/
  | timedOut
  deriving DecidableEq, Repr

structure CacheEntry (Value : Type) where
  result : Computed Value
  cachedAt : Nat
  fileMtime : Option Nat
  fileSize : Option Nat
  /-- What the file was when the compute of this result started.  The code does not keep it. -/
  startedWith : Option FileMetadata
  deriving DecidableEq, Repr

structure InFlightEntry where
  future : Nat
  startedAt : Nat
  deriving DecidableEq, Repr

/-- How `asyncio.wait_for(compute_fn(), timeout)` ends. -/
inductive Outcome (Value Exc : Type) where
  | value (v : Value)
  | timedOut
  | cancelled
  | raised (e : Exc)
  deriving DecidableEq, Repr

/-- What a future is resolved with, or a task ends with. -/
inductive Answer (Value Exc : Type) where
  | result (r : Computed Value)
  | cancelled
  | raised (e : Exc)
  /-- A `TimeoutError` of the clean-up, or of a wait. -/
  | timeoutError
  deriving DecidableEq, Repr

/-- The lists of `_collect_expired_keys`. -/
structure Expired (Key : Type) where
  cache : List Key
  leaked : List Key
  stuck : List Key
  deriving DecidableEq, Repr

/-- Where a `get_or_compute` stands. -/
inductive Task (Key Value Exc : Type) where
  | idle
  /-- At the first lock. -/
  | checking (key : Key)
  /-- At the lock of `_delete_expired_keys`. -/
  | deleting (key : Key) (expired : Expired Key)
  /-- At the second lock. -/
  | looking (key : Key)
  /-- At the first lock of `_do_compute`. -/
  | owning (key : Key)
  /-- In the compute function. -/
  | computing (key : Key) (fileMetadata : Option FileMetadata)
  /-- At the last lock of `_do_compute`. -/
  | storing (key : Key) (fileMetadata : Option FileMetadata) (outcome : Outcome Value Exc)
  /-- In `_wait_for_result`. -/
  | waiting (future : Nat) (since : Nat)
  /-- The answer to a task that has joined an in-flight entry. -/
  | received (future : Nat) (answer : Answer Value Exc)
  | answered (answer : Answer Value Exc)
  /-- Cancelled, or ended with its process. -/
  | gone
  deriving DecidableEq, Repr

/-- Parameters of the constructor, and the length of a second. -/
structure CoalescerConfig where
  cleanupCadence : Nat
  gracePeriod : Nat
  computeTimeout : Nat
  maxFileAge : Nat
  second : Nat
  deriving DecidableEq, Repr

structure CoalescerState (Key Value Exc : Type) where
  /-- `time.monotonic()` -/
  now : Nat
  /-- `time.time()` -/
  timestamp : Nat
  lastCleanup : Nat
  /-- What `os.stat` finds. -/
  files : Key → Option FileMetadata
  cache : Dict Key (CacheEntry Value)
  inFlight : Dict Key InFlightEntry
  futures : Nat → Option (Answer Value Exc)
  tasks : Nat → Task Key Value Exc
  /-- How the compute function of a task has ended.  The code does not keep it. -/
  computed : Nat → Option (Outcome Value Exc)
  /-- What `export_cache` has returned last. -/
  persisted : List (Key × CacheEntry Value)

inductive CoalescerEvent (Key Value Exc : Type) where
  /-- `get_or_compute` -/
  | request (task : Nat) (key : Key)
  /-- A task goes on to its next await. -/
  | run (task : Nat)
  | computeEnds (task : Nat) (outcome : Outcome Value Exc)
  | cancel (task : Nat)
  /-- The wait of a task for the result of another one times out. -/
  | waitTimeout (task : Nat)
  | peek (key : Key)
  | exportCache
  /-- `import_cache` of what was exported, as far as it can still be read. -/
  | importCache (readable : Key → Bool)
  /-- The process ends, and another one begins with an empty cache. -/
  | restart (now : Nat)
  | fileChange (key : Key) (fileMetadata : Option FileMetadata)
  | clock (elapsed timestamp : Nat)

variable {Key Value Exc : Type}

/-- What becomes of a task when its process ends. -/
def Task.ended : Task Key Value Exc → Task Key Value Exc
  | .idle => .idle
  | .received future answer => .received future answer
  | .answered answer => .answered answer
  | _ => .gone

def Outcome.answer : Outcome Value Exc → Answer Value Exc
  | .value v => .result (.value v)
  | .timedOut => .result .timedOut
  | .cancelled => .cancelled
  | .raised e => .raised e

/-- The cache entry that an outcome makes, if any. -/
def Outcome.entry (now : Nat) (fileMetadata : Option FileMetadata) :
    Outcome Value Exc → Option (CacheEntry Value)
  | .value v => some ⟨.value v, now, fileMetadata.map FileMetadata.mtime,
      fileMetadata.map FileMetadata.size, fileMetadata⟩
  | .timedOut => some ⟨.timedOut, now, fileMetadata.map FileMetadata.mtime, none, fileMetadata⟩
  | .cancelled | .raised _ => none

namespace CoalescerState

/-- A task goes on to another place. -/
def goTo (s : CoalescerState Key Value Exc) (task : Nat) (place : Task Key Value Exc) :
    CoalescerState Key Value Exc :=
  { s with tasks := fun t => if t = task then place else s.tasks t }

/-- `if not future.done()`: resolve it. -/
def resolve (futures : Nat → Option (Answer Value Exc)) (future : Nat)
    (answer : Answer Value Exc) : Nat → Option (Answer Value Exc) :=
  fun f => if f = future then (futures f).or (some answer) else futures f

variable (cfg : CoalescerConfig)

/-- An in-flight entry has been there for `stuck_threshold`. -/
def old (s : CoalescerState Key Value Exc) (entry : InFlightEntry) : Bool :=
  entry.startedAt + cfg.computeTimeout * 2 ≤ s.now

/-- `_collect_expired_keys` -/
def collectExpiredKeys (s : CoalescerState Key Value Exc) : Expired Key where
  cache := (s.cache.entries.filter fun e =>
    e.2.fileMtime.any fun mtime => mtime + cfg.maxFileAge ≤ s.timestamp).map Prod.fst
  leaked := (s.inFlight.entries.filter fun e =>
    (s.futures e.2.future).isSome && s.old cfg e.2).map Prod.fst
  stuck := (s.inFlight.entries.filter fun e =>
    (s.futures e.2.future).isNone && s.old cfg e.2).map Prod.fst

variable [DecidableEq Key]

/-- One key of the loop over stuck keys. -/
def deleteStuck (s : CoalescerState Key Value Exc) (key : Key) : CoalescerState Key Value Exc :=
  match s.inFlight.get? key with
  | none => s
  | some entry =>
    { s with
      inFlight := s.inFlight.erase key
      futures := resolve s.futures entry.future .timeoutError }

/-- `_delete_expired_keys` -/
def deleteExpiredKeys (s : CoalescerState Key Value Exc) (expired : Expired Key) :
    CoalescerState Key Value Exc :=
  expired.stuck.foldl deleteStuck
    { s with
      cache := expired.cache.foldl Dict.erase s.cache
      inFlight := expired.leaked.foldl Dict.erase s.inFlight }

/-- `_get_valid_cached_result_unsafe`: the cache, and the entry of a hit. -/
def validCachedResult (s : CoalescerState Key Value Exc) (key : Key) :
    Dict Key (CacheEntry Value) × Option (CacheEntry Value) :=
  match s.cache.get? key with
  | none => (s.cache, none)
  | some entry =>
    if s.now < entry.cachedAt + cfg.gracePeriod then (s.cache, some entry)
    else
      match entry.fileMtime, entry.fileSize with
      | some mtime, some size =>
        if s.files key = some ⟨mtime, size⟩ then (s.cache, some entry)
        else (s.cache.erase key, none)
      | some _, none => (s.cache.erase key, none)
      | none, _ => (s.cache, some entry)

/-- The second locked part of `get_or_compute`. -/
def look (s : CoalescerState Key Value Exc) (task : Nat) (key : Key) :
    CoalescerState Key Value Exc :=
  let found := s.validCachedResult cfg key
  let s := { s with cache := found.1 }
  match found.2, s.inFlight.get? key with
  | some entry, _ => s.goTo task (.answered (.result entry.result))
  | none, some entry => s.goTo task (.waiting entry.future s.now)
  | none, none =>
    { s with inFlight := s.inFlight.set key ⟨task, s.now⟩ }.goTo task (.owning key)

/-- The end of `_do_compute`. -/
def store (s : CoalescerState Key Value Exc) (task : Nat) (key : Key)
    (fileMetadata : Option FileMetadata) (outcome : Outcome Value Exc) :
    CoalescerState Key Value Exc :=
  { s with
    cache := match outcome.entry s.now fileMetadata with
      | some entry => s.cache.set key entry
      | none => s.cache
    inFlight := s.inFlight.erase key
    futures := resolve s.futures task outcome.answer }.goTo task (.answered outcome.answer)

/-- A task goes on from where it stands. -/
def runTask (s : CoalescerState Key Value Exc) (task : Nat) :
    Option (CoalescerState Key Value Exc) :=
  match s.tasks task with
  | .checking key =>
    if s.lastCleanup + cfg.cleanupCadence ≤ s.now then
      some ({ s with lastCleanup := s.now }.goTo task (.deleting key (s.collectExpiredKeys cfg)))
    else some (s.goTo task (.looking key))
  | .deleting key expired => some ((s.deleteExpiredKeys expired).goTo task (.looking key))
  | .looking key => some (s.look cfg task key)
  | .owning key => some (s.goTo task (.computing key (s.files key)))
  | .storing key fileMetadata outcome => some (s.store task key fileMetadata outcome)
  | .waiting future _ => (s.futures future).map fun answer =>
    s.goTo task (.received future answer)
  | _ => none

/-- A cancellation where the task awaits.  A compute function may come to its end at once,
later, or ignore it. -/
def cancelTask (s : CoalescerState Key Value Exc) (task : Nat) :
    Option (CoalescerState Key Value Exc) :=
  match s.tasks task with
  | .checking _ | .deleting _ _ | .looking _ | .owning _ => some (s.goTo task .gone)
  | .computing _ _ => some s
  -- The result is stored in the `try` block, anything else in a handler of it.
  | .storing key fileMetadata (.value _) => some (s.goTo task (.storing key fileMetadata .cancelled))
  | .storing _ _ _ => some (s.goTo task .gone)
  | .waiting future _ =>
    match s.futures future with
    | none | some .cancelled => some (s.goTo task .gone)
    | some answer => some (s.goTo task (.received future answer))
  | _ => none

/-- One entry of `import_cache`. -/
def importEntry (s : CoalescerState Key Value Exc) (readable : Key → Bool)
    (cache : Dict Key (CacheEntry Value)) (e : Key × CacheEntry Value) :
    Dict Key (CacheEntry Value) :=
  match readable e.1, e.2.fileMtime, e.2.fileSize with
  | true, some mtime, some size =>
    if mtime + cfg.maxFileAge ≤ s.timestamp then cache
    else if s.files e.1 = some ⟨mtime, size⟩ then cache.set e.1 { e.2 with cachedAt := s.now }
    else cache
  | _, _, _ => cache

def step (s : CoalescerState Key Value Exc) :
    CoalescerEvent Key Value Exc → Option (CoalescerState Key Value Exc)
  | .request task key =>
    match s.tasks task with
    | .idle => some (s.goTo task (.checking key))
    | _ => none
  | .run task => s.runTask cfg task
  | .computeEnds task outcome =>
    match s.tasks task with
    | .computing key fileMetadata =>
      some ({ s with computed := fun t => if t = task then some outcome else s.computed t }.goTo
        task (.storing key fileMetadata outcome))
    | _ => none
  | .cancel task => s.cancelTask task
  | .waitTimeout task =>
    match s.tasks task with
    | .waiting future since =>
      if s.futures future = none ∧ since + cfg.computeTimeout + 60 * cfg.second ≤ s.now then
        some (s.goTo task (.received future .timeoutError))
      else none
    | _ => none
  | .peek key => some { s with cache := (s.validCachedResult cfg key).1 }
  | .exportCache => some { s with persisted := s.cache.entries }
  | .importCache readable =>
    some { s with cache := s.persisted.foldl (s.importEntry cfg readable) s.cache }
  | .restart now =>
    some { s with
      now := now
      lastCleanup := now
      cache := .empty
      inFlight := .empty
      tasks := fun t => (s.tasks t).ended }
  | .fileChange key fileMetadata =>
    some { s with files := fun k => if k = key then fileMetadata else s.files k }
  | .clock elapsed timestamp => some { s with now := s.now + elapsed, timestamp := timestamp }

/-- A new coalescer. -/
def system : System (CoalescerState Key Value Exc) (CoalescerEvent Key Value Exc) where
  init s := s.cache = .empty ∧ s.inFlight = .empty ∧ (∀ f, s.futures f = none) ∧
    (∀ t, s.tasks t = .idle) ∧ (∀ t, s.computed t = none) ∧ s.persisted = []
  step := step cfg

/-! ## A process that has just begun -/

def smallConfig : CoalescerConfig :=
  ⟨100, 10, 5, 1000, 1⟩

def newProcess : CoalescerState Nat Nat Nat where
  now := 0
  timestamp := 0
  lastCleanup := 0
  files _ := none
  cache := .empty
  inFlight := .empty
  futures _ := none
  tasks _ := .idle
  computed _ := none
  persisted := []

theorem init_newProcess : (system smallConfig).init newProcess :=
  ⟨rfl, rfl, fun _ => rfl, fun _ => rfl, fun _ => rfl, rfl⟩

/-- A request that is the first for its key, up to the compute function. -/
def requestFirst (task : Nat) : List (CoalescerEvent Nat Nat Nat) :=
  [.request task 0, .run task, .run task, .run task]

end CoalescerState

end ResiliencyExt.Attribution
