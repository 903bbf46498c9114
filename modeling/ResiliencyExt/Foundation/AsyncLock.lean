set_option autoImplicit false

/-!
# Foundation: the lock of an event loop

`asyncio.Lock` as its tasks see it.  The tasks that wait stand in a queue, each
with a future.  A release gives the first of them its result, and the lock stays
free until that task runs again and takes it without looking; a task that
arrives in between finds the queue not empty and waits behind it.

Only the first future is ever given a result, so one flag says whether it has
it.
-/

namespace ResiliencyExt.Foundation

variable {Task : Type}

structure AsyncLock (Task : Type) where
  locked : Bool
  waiters : List Task
  /-- The future of the first waiter has its result. -/
  woken : Bool

namespace AsyncLock

def unlocked : AsyncLock Task :=
  ⟨false, [], false⟩

/-- `_wake_up_first` -/
def wakeUpFirst (lock : AsyncLock Task) : AsyncLock Task :=
  { lock with woken := !lock.waiters.isEmpty }

/-- `release` of a lock that is locked. -/
def release (lock : AsyncLock Task) : AsyncLock Task :=
  { lock with locked := false }.wakeUpFirst

/-- `acquire` up to its first wait, and whether it is done without one. -/
def acquire (lock : AsyncLock Task) (task : Task) : AsyncLock Task × Bool :=
  if lock.locked = false ∧ lock.waiters.isEmpty then ({ lock with locked := true }, true)
  else ({ lock with waiters := lock.waiters ++ [task] }, false)

variable [DecidableEq Task]

/-- The task whose future has its result goes on and takes the lock. -/
def resume (lock : AsyncLock Task) (task : Task) : Option (AsyncLock Task) :=
  if lock.woken = true ∧ lock.waiters.head? = some task then
    some ⟨true, lock.waiters.tail, false⟩
  else none

/-- The wait of the task is cancelled. -/
def cancel (lock : AsyncLock Task) (task : Task) : AsyncLock Task :=
  let remaining : AsyncLock Task :=
    ⟨lock.locked, lock.waiters.erase task, lock.woken && lock.waiters.head? ≠ some task⟩
  if lock.locked then remaining else remaining.wakeUpFirst

/-- A waiter has its result only while the lock is free. -/
structure Sound (lock : AsyncLock Task) : Prop where
  free : lock.woken = true → lock.locked = false
  queued : lock.woken = true → lock.waiters ≠ []

omit [DecidableEq Task]

theorem sound_unlocked : (unlocked : AsyncLock Task).Sound where
  free := nofun
  queued := nofun

theorem sound_wakeUpFirst {lock : AsyncLock Task} (h : lock.locked = false) :
    lock.wakeUpFirst.Sound where
  free _ := h
  queued hwoken := by simpa [wakeUpFirst] using hwoken

theorem sound_release (lock : AsyncLock Task) : lock.release.Sound :=
  sound_wakeUpFirst rfl

/-- An acquire that does not wait finds the lock free. -/
theorem acquire_done {lock next : AsyncLock Task} {task : Task}
    (h : lock.acquire task = (next, true)) : lock.locked = false ∧ next.locked = true := by
  unfold acquire at h
  split at h
  · rename_i hfree
    cases h
    exact ⟨hfree.1, rfl⟩
  · cases h

theorem acquire_waiting {lock next : AsyncLock Task} {task : Task}
    (h : lock.acquire task = (next, false)) : next.locked = lock.locked := by
  unfold acquire at h
  split at h
  · cases h
  · cases h
    rfl

theorem Sound.acquire {lock : AsyncLock Task} (h : lock.Sound) (task : Task) :
    (lock.acquire task).1.Sound := by
  unfold AsyncLock.acquire
  split
  · rename_i hfree
    have hempty : lock.waiters = [] := List.isEmpty_iff.mp hfree.2
    exact ⟨fun hwoken => absurd hempty (h.queued hwoken), h.queued⟩
  · exact ⟨h.free, fun _ => List.append_ne_nil_of_right_ne_nil _ (List.cons_ne_nil _ _)⟩

variable [DecidableEq Task]

theorem Sound.cancel {lock : AsyncLock Task} (h : lock.Sound) (task : Task) :
    (lock.cancel task).Sound := by
  unfold AsyncLock.cancel
  split
  · rename_i hlocked
    have hwoken : lock.woken = false := by
      rw [Bool.eq_false_iff]
      intro hwoken
      rw [h.free hwoken] at hlocked
      cases hlocked
    exact ⟨fun h => by simp [hwoken] at h, fun h => by simp [hwoken] at h⟩
  · rename_i hfree
    exact sound_wakeUpFirst (Bool.eq_false_iff.mpr hfree)

/-- A waiter resumes on a lock that nobody holds. -/
theorem Sound.resume {lock next : AsyncLock Task} {task : Task} (h : lock.Sound)
    (hresume : lock.resume task = some next) :
    lock.locked = false ∧ next.locked = true ∧ next.Sound := by
  unfold AsyncLock.resume at hresume
  split at hresume
  · rename_i hwoken
    cases hresume
    exact ⟨h.free hwoken.1, rfl, nofun, nofun⟩
  · cases hresume

end AsyncLock

end ResiliencyExt.Foundation
