import ResiliencyExt.Attribution.RestartAgent.AttemptRecords

set_option autoImplicit false

/-!
# Restart agent: model routes

`_execute_model_routes` of `multi_route.py`.  The routes run in a pool; the coordinator waits for
their futures until the deadline, settles the ones that are done in the order of the routes, and
gives the others the deterministic result.  Settling a route keeps its run under the route's id
and calls back for the result and for the attempt record.

A waiter answers with two lists that together have the futures it was given, as
`concurrent.futures.wait` does.  Exceptions are those that `except Exception` catches.
-/

namespace ResiliencyExt.Attribution.RestartAgent

open Foundation

/-! ## Routes and runs -/

/-- `ModelRoute`; what its extractor does is in the outcome of its runner. -/
structure ModelRoute where
  routeId : String
  model : Option String := none
  endpoint : Option String := none
  credentialRef : Option String := none
deriving DecidableEq, Repr

inductive ExecutionStatus where
  | completed
  | deadlineExceeded
  | providerError
  | malformed
  | degraded
  | orchestrationError
deriving DecidableEq, Repr

section Runs

variable (Result Trace : Type)

structure ModelAnalysisResult where
  routeId : String
  model : Option String
  endpoint : Option String
  credentialRef : Option String
  executionStatus : ExecutionStatus
  l1Usable : Bool
  analysisResult : Result
  error : Option String

/-- The trace of a route: the runner's, or what the coordinator says in its place. -/
inductive RouteTrace where
  | trace (trace : Trace)
  | routingError (error : String) (route : ModelRoute)
  | deadlineExceeded (error : String) (route : ModelRoute)
  | empty

/-- The run of a route: its result, its trace and its attempt record. -/
structure RouteRun where
  result : ModelAnalysisResult Result
  trace : RouteTrace Trace
  attemptRecord : Option AttemptRecord

/-- What `run_prepared` returns, with what its trace says of L1. -/
structure AnalysisRun where
  result : Result
  trace : Trace
  attemptRecord : Option AttemptRecord
  outputUsable : Bool
  model : Option String
  errors : List String
  deadlineExceeded : Bool
  providerError : Bool
  malformed : Bool

/-- What a route's runner comes to. -/
inductive RunnerOutcome where
  /-- The factory raises. -/
  | factoryError (error : String)
  /-- `run_prepared` raises. -/
  | runError (error : String)
  /-- What `run_prepared` returned cannot be read. -/
  | traceError (error : String)
  | returned (run : AnalysisRun Result Trace)

end Runs

variable {Result Trace : Type}

/-- `execution_status` of a run that returned. -/
def AnalysisRun.executionStatus (run : AnalysisRun Result Trace) : ExecutionStatus :=
  if run.outputUsable then .completed
  else if run.deadlineExceeded then .deadlineExceeded
  else if run.providerError then .providerError
  else if run.malformed then .malformed
  else .degraded

/-- A run whose result is the deterministic one. -/
def failedRun (route : ModelRoute) (deterministicResult : Result) (status : ExecutionStatus)
    (error : String) (trace : RouteTrace Trace) : RouteRun Result Trace where
  result :=
    { routeId := route.routeId
      model := route.model
      endpoint := route.endpoint
      credentialRef := route.credentialRef
      executionStatus := status
      l1Usable := false
      analysisResult := deterministicResult
      error := some error }
  trace := trace
  attemptRecord := none

/-- `_orchestration_error_route_result` -/
def orchestrationErrorRouteResult (route : ModelRoute) (deterministicResult : Result)
    (error : String) : RouteRun Result Trace :=
  failedRun route deterministicResult .orchestrationError error (.routingError error route)

/-- `_deadline_exceeded_route_result` -/
def deadlineExceededRouteResult (route : ModelRoute) (deterministicResult : Result) :
    RouteRun Result Trace :=
  let error := "analysis deadline exceeded before the model route completed"
  failedRun route deterministicResult .deadlineExceeded error (.deadlineExceeded error route)

/-- `_run_model_route` -/
def runModelRoute (route : ModelRoute) (deterministicResult : Result) :
    RunnerOutcome Result Trace → Except String (RouteRun Result Trace)
  | .factoryError error => .error error
  | .runError error => .ok (orchestrationErrorRouteResult route deterministicResult error)
  | .traceError error => .error error
  | .returned run => .ok
      { result :=
          { routeId := route.routeId
            model := if truthy route.model then route.model else run.model
            endpoint := route.endpoint
            credentialRef := route.credentialRef
            executionStatus := run.executionStatus
            l1Usable := run.outputUsable
            analysisResult :=
              if run.executionStatus = .deadlineExceeded then deterministicResult else run.result
            error := if run.errors = [] then none else some ("; ".intercalate run.errors) }
        trace := .trace run.trace
        attemptRecord := run.attemptRecord }

/-! ## Futures -/

/-- A future, by its place among the submitted ones. -/
structure RouteFuture where
  route : ModelRoute
  number : Nat
deriving DecidableEq, Repr

/-- `future_waiter`: the number of the call, the timeout and the pending futures give the done and
the pending ones. -/
structure FutureWaiter where
  wait : Nat → Int → List RouteFuture → List RouteFuture × List RouteFuture
  perm : ∀ call timeout pending,
    ((wait call timeout pending).1 ++ (wait call timeout pending).2).Perm pending

/-- The order in which a set of futures is gone through. -/
structure SetOrder where
  order : List RouteFuture → List RouteFuture
  perm : ∀ futures, (order futures).Perm futures

/-- What the coordinator works with.  A callback is known by what its calls raise, one after
another; a future without an outcome was cancelled. -/
structure RouteEnv (Result Trace : Type) where
  clock : Nat → Int
  deadline : Int
  deterministicResult : Result
  outcome : RouteFuture → Option (RunnerOutcome Result Trace)
  waiter : FutureWaiter
  setOrder : SetOrder
  onRouteComplete : Option (Nat → Option String)
  onAttemptRecordReady : Option (Nat → Option String)
  retainDetailedArtifacts : Bool

/-- A call of one of the callbacks. -/
inductive RouteCall (Result Trace : Type) where
  | routeComplete (result : ModelAnalysisResult Result) (trace : RouteTrace Trace)
  | attemptRecordReady (routeId : String) (record : AttemptRecord)

/-- What the coordinator has so far.  `arrived` has the futures that the waiter gave as done. -/
structure Collected (Result Trace : Type) where
  completed : Dict String (RouteRun Result Trace) := Dict.empty
  callbackErrors : Dict String String := Dict.empty
  calls : List (RouteCall Result Trace) := []
  arrived : List RouteFuture := []

namespace RouteEnv

variable (env : RouteEnv Result Trace)

/-- `remaining_deadline_seconds` -/
def remaining (reads : Nat) : Int :=
  max 0 (env.deadline - env.clock reads)

/-- `future.result()`, and the answer to what it raises. -/
def futureRun (future : RouteFuture) : RouteRun Result Trace :=
  match env.outcome future with
  | none => orchestrationErrorRouteResult future.route env.deterministicResult "CancelledError: "
  | some outcome =>
    match runModelRoute future.route env.deterministicResult outcome with
    | .ok run => run
    | .error error => orchestrationErrorRouteResult future.route env.deterministicResult error

/-- `_notify_route_complete` -/
def notifyRouteComplete (run : RouteRun Result Trace) (collected : Collected Result Trace) :
    Collected Result Trace :=
  match env.onRouteComplete with
  | none => collected
  | some callback =>
    { collected with
      calls := collected.calls ++ [.routeComplete run.result run.trace]
      callbackErrors :=
        match callback collected.calls.length with
        | none => collected.callbackErrors
        | some error => collected.callbackErrors.set run.result.routeId error }

/-- `_notify_attempt_record_ready` -/
def notifyAttemptRecordReady (routeId : String) (record : Option AttemptRecord)
    (collected : Collected Result Trace) : Collected Result Trace :=
  match env.onAttemptRecordReady, record with
  | some callback, some record =>
    { collected with
      calls := collected.calls ++ [.attemptRecordReady routeId record]
      callbackErrors :=
        match callback collected.calls.length with
        | none => collected.callbackErrors
        | some error => collected.callbackErrors.set ("attempt_record:" ++ routeId) error }
  | _, _ => collected

/-- A run without its trace, when the artifacts are not retained. -/
def kept (run : RouteRun Result Trace) : RouteRun Result Trace :=
  if env.retainDetailedArtifacts then run else { run with trace := .empty }

/-- The run goes under the id of its route, and the callbacks are called. -/
def settle (route : ModelRoute) (run : RouteRun Result Trace)
    (collected : Collected Result Trace) : Collected Result Trace :=
  let collected := { collected with completed := collected.completed.set route.routeId run }
  let collected := env.notifyRouteComplete run collected
  let collected := env.notifyAttemptRecordReady route.routeId run.attemptRecord collected
  if env.retainDetailedArtifacts then collected
  else { collected with
    completed := collected.completed.set route.routeId { run with trace := .empty } }

/-- A future that the waiter gave as done. -/
def settleDone (collected : Collected Result Trace) (future : RouteFuture) :
    Collected Result Trace :=
  env.settle future.route (env.futureRun future)
    { collected with arrived := collected.arrived ++ [future] }

/-- A route that did not complete in time. -/
def settleLate (collected : Collected Result Trace) (route : ModelRoute) :
    Collected Result Trace :=
  env.settle route (deadlineExceededRouteResult route env.deterministicResult) collected

/-- `{route.route_id: index for index, route in enumerate(routes)}` -/
def routeOrder (routes : List ModelRoute) : Dict String Nat :=
  routes.zipIdx.foldl (fun order entry => order.set entry.1.routeId entry.2) Dict.empty

/-- `sorted(newly_done, key=…)` -/
def inRouteOrder (routes : List ModelRoute) (futures : List RouteFuture) : List RouteFuture :=
  futures.insertionSort fun a b =>
    ((routeOrder routes).get? a.route.routeId).getD 0 ≤
      ((routeOrder routes).get? b.route.routeId).getD 0

theorem length_wait_lt {waiter : FutureWaiter} {call : Nat} {timeout : Int}
    {pending : List RouteFuture} (h : (waiter.wait call timeout pending).1 ≠ []) :
    (waiter.wait call timeout pending).2.length < pending.length := by
  have hlength := (waiter.perm call timeout pending).length_eq
  have hpos := List.length_pos_iff.mpr h
  rw [List.length_append] at hlength
  omega

/-- The loop: the futures that are pending at its end, and what was collected. -/
def awaitRoutes (routes : List ModelRoute) (pending : List RouteFuture) (reads call : Nat)
    (collected : Collected Result Trace) : List RouteFuture × Collected Result Trace :=
  if pending = [] then ([], collected)
  else if env.remaining reads ≤ 0 then (pending, collected)
  else
    if h : (env.waiter.wait call (env.remaining (reads + 1)) pending).1 = [] then
      ((env.waiter.wait call (env.remaining (reads + 1)) pending).2, collected)
    else
      awaitRoutes routes (env.waiter.wait call (env.remaining (reads + 1)) pending).2 (reads + 2)
        (call + 1)
        ((inRouteOrder routes (env.waiter.wait call (env.remaining (reads + 1)) pending).1).foldl
          env.settleDone collected)
termination_by pending.length
decreasing_by exact length_wait_lt h

/-- The submitted futures. -/
def submitted (routes : List ModelRoute) : List RouteFuture :=
  routes.zipIdx.map fun entry => ⟨entry.1, entry.2⟩

/-- `_execute_model_routes` -/
def executeModelRoutes (routes : List ModelRoute) : Collected Result Trace :=
  if env.remaining 0 ≤ 0 then routes.foldl env.settleLate {}
  else
    let awaited := env.awaitRoutes routes (submitted routes) 1 0 {}
    (env.setOrder.order awaited.1).foldl (fun collected future =>
      env.settleLate collected future.route) awaited.2

end RouteEnv

end ResiliencyExt.Attribution.RestartAgent
