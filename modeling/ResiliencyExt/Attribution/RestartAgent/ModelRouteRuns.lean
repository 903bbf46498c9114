import ResiliencyExt.Attribution.RestartAgent.ModelRoutes

set_option autoImplicit false

/-!
# Restart agent: every route is settled once

However the futures come to be done and whatever the callbacks raise, each of the routes with
their distinct ids has one run under its id, and each callback is called once for it
(`executeModelRoutes_eachOnce`).  The runs are those of the futures that arrived, and the
deterministic result for the others.
-/

namespace ResiliencyExt.Attribution.RestartAgent

open Foundation List

variable {Result Trace : Type}

/-! ## The calls -/

/-- The route ids that `on_route_complete` was called with. -/
def Collected.completions (collected : Collected Result Trace) : List String :=
  collected.calls.filterMap fun
    | .routeComplete result _ => some result.routeId
    | .attemptRecordReady _ _ => none

/-- What `on_attempt_record_ready` was called with. -/
def Collected.deliveries (collected : Collected Result Trace) : List (String × AttemptRecord) :=
  collected.calls.filterMap fun
    | .routeComplete _ _ => none
    | .attemptRecordReady routeId record => some (routeId, record)

/-- The attempt record of a run under a route's id. -/
def RouteRun.delivery (run : RouteRun Result Trace) (routeId : String) :
    Option (String × AttemptRecord) :=
  run.attemptRecord.map fun record => (routeId, record)

namespace RouteEnv

variable (env : RouteEnv Result Trace)

/-- What was collected is the runs of some routes. -/
structure Settled (runs : List (ModelRoute × RouteRun Result Trace))
    (collected : Collected Result Trace) : Prop where
  keys : collected.completed.keys = runs.map fun entry => entry.1.routeId
  completed : ∀ entry ∈ runs,
    collected.completed.get? entry.1.routeId = some (env.kept entry.2)
  completions : env.onRouteComplete.isSome →
    collected.completions = runs.map fun entry => entry.2.result.routeId
  deliveries : env.onAttemptRecordReady.isSome →
    collected.deliveries = runs.filterMap fun entry => entry.2.delivery entry.1.routeId

theorem settled_start (arrived : List RouteFuture) :
    env.Settled [] { arrived := arrived } :=
  ⟨rfl, fun _ h => absurd h not_mem_nil, fun _ => rfl, fun _ => rfl⟩

/-! ## One route -/

theorem notifyRouteComplete_spec (run : RouteRun Result Trace)
    (collected : Collected Result Trace) :
    (env.notifyRouteComplete run collected).completed = collected.completed ∧
      (env.notifyRouteComplete run collected).arrived = collected.arrived ∧
      (env.notifyRouteComplete run collected).deliveries = collected.deliveries ∧
      (env.onRouteComplete.isSome → (env.notifyRouteComplete run collected).completions =
        collected.completions ++ [run.result.routeId]) := by
  unfold notifyRouteComplete
  split
  · next hnone => exact ⟨rfl, rfl, rfl, fun h => absurd h (by rw [hnone]; exact Bool.false_ne_true)⟩
  · refine ⟨rfl, rfl, ?_, fun _ => filterMap_append⟩
    exact filterMap_append.trans (append_nil _)

theorem notifyAttemptRecordReady_spec (route : ModelRoute) (run : RouteRun Result Trace)
    (collected : Collected Result Trace) :
    (env.notifyAttemptRecordReady route.routeId run.attemptRecord collected).completed =
        collected.completed ∧
      (env.notifyAttemptRecordReady route.routeId run.attemptRecord collected).arrived =
        collected.arrived ∧
      (env.notifyAttemptRecordReady route.routeId run.attemptRecord collected).completions =
        collected.completions ∧
      (env.onAttemptRecordReady.isSome →
        (env.notifyAttemptRecordReady route.routeId run.attemptRecord collected).deliveries =
          collected.deliveries ++ (run.delivery route.routeId).toList) := by
  unfold notifyAttemptRecordReady RouteRun.delivery
  split
  · next hrecord =>
    refine ⟨rfl, rfl, ?_, fun _ => ?_⟩
    · exact filterMap_append.trans (append_nil _)
    · rw [hrecord]
      exact filterMap_append
  · next hnone =>
    refine ⟨rfl, rfl, rfl, fun h => ?_⟩
    obtain ⟨callback, hcallback⟩ := Option.isSome_iff_exists.mp h
    cases hrecord : run.attemptRecord with
    | none => exact (append_nil _).symm
    | some record => exact absurd hrecord (hnone callback record hcallback)

/-- The run of a route that is kept, the calls it makes, and nothing else. -/
theorem settle_spec (route : ModelRoute) (run : RouteRun Result Trace)
    (collected : Collected Result Trace) :
    (∀ id, (env.settle route run collected).completed.get? id =
        if id = route.routeId then some (env.kept run) else collected.completed.get? id) ∧
      (route.routeId ∉ collected.completed.keys → (env.settle route run collected).completed.keys =
        collected.completed.keys ++ [route.routeId]) ∧
      (env.settle route run collected).arrived = collected.arrived ∧
      (env.onRouteComplete.isSome → (env.settle route run collected).completions =
        collected.completions ++ [run.result.routeId]) ∧
      (env.onAttemptRecordReady.isSome → (env.settle route run collected).deliveries =
        collected.deliveries ++ (run.delivery route.routeId).toList) := by
  let first : Collected Result Trace :=
    { collected with completed := collected.completed.set route.routeId run }
  obtain ⟨hcompleted, harrived, hdeliveries, hcompletions⟩ :=
    notifyRouteComplete_spec env run first
  obtain ⟨hcompleted', harrived', hcompletions', hdeliveries'⟩ :=
    notifyAttemptRecordReady_spec env route run (env.notifyRouteComplete run first)
  have hset := hcompleted'.trans hcompleted
  have hcompletions'' := fun h => hcompletions'.trans (hcompletions h)
  have hdeliveries'' := fun h => (hdeliveries' h).trans (congrArg (· ++ _) hdeliveries)
  unfold settle kept
  dsimp only
  split
  · refine ⟨fun id => ?_, fun hnew => ?_, harrived'.trans harrived, hcompletions'', hdeliveries''⟩
    · rw [hset]
      exact Dict.get?_set _ _ _ _
    · rw [hset]
      exact Dict.keys_set_of_not_mem run hnew
  · refine ⟨fun id => ?_, fun hnew => ?_, harrived'.trans harrived, hcompletions'', hdeliveries''⟩
    · rw [hset, Dict.get?_set]
      split
      · rfl
      · next hne => exact Dict.get?_set_of_ne _ _ hne
    · rw [hset, Dict.keys_set_of_mem _ (Dict.mem_keys_set.mpr (.inl rfl))]
      exact Dict.keys_set_of_not_mem run hnew

variable {env}

variable {runs : List (ModelRoute × RouteRun Result Trace)} {collected : Collected Result Trace}
    {α : Type} (future : RouteFuture) (routes : List ModelRoute)

/-- One more route, with an id that is not among the settled ones. -/
theorem Settled.settle (h : env.Settled runs collected) (route : ModelRoute)
    (run : RouteRun Result Trace) (hnew : route.routeId ∉ runs.map fun entry => entry.1.routeId) :
    env.Settled (runs ++ [(route, run)]) (env.settle route run collected) := by
  obtain ⟨hget, hkeys, -, hcompletions, hdeliveries⟩ := settle_spec env route run collected
  refine ⟨?_, fun entry hentry => ?_, fun hsome => ?_, fun hsome => ?_⟩
  · rw [hkeys (h.keys ▸ hnew), h.keys, map_append]
    rfl
  · rw [hget]
    rcases mem_append.mp hentry with hold | hlast
    · have hne : entry.1.routeId ≠ route.routeId := fun heq =>
        hnew (heq ▸ mem_map_of_mem (f := fun entry => entry.1.routeId) hold)
      rw [if_neg hne]
      exact h.completed entry hold
    · rw [mem_singleton.mp hlast]
      exact if_pos rfl
  · rw [hcompletions hsome, h.completions hsome, map_append]
    rfl
  · rw [hdeliveries hsome, h.deliveries hsome, filterMap_append]
    refine congrArg (_ ++ ·) ?_
    cases hdelivery : run.delivery route.routeId with
    | none => simp only [filterMap_cons, hdelivery, filterMap_nil, Option.toList_none]
    | some delivery =>
      simp only [filterMap_cons, hdelivery, filterMap_nil, Option.toList_some]

/-! ## Many routes -/

/-- Routes with distinct ids, settled one after another by a step that settles one. -/
theorem Settled.foldl {step : Collected Result Trace → α → Collected Result Trace}
    {entry : α → ModelRoute × RouteRun Result Trace}
    (hstep : ∀ runs collected item, env.Settled runs collected →
      (entry item).1.routeId ∉ (runs.map fun e => e.1.routeId) →
      env.Settled (runs ++ [entry item]) (step collected item))
    (items : List α) :
    ∀ (runs : List (ModelRoute × RouteRun Result Trace)) (collected : Collected Result Trace),
      env.Settled runs collected →
      ((runs ++ items.map entry).map fun e => e.1.routeId).Nodup →
        env.Settled (runs ++ items.map entry) (items.foldl step collected) := by
  induction items with
  | nil =>
    intro runs collected h _
    rw [map_nil, append_nil]
    exact h
  | cons item items ih =>
    intro runs collected h hnodup
    have hassoc : runs ++ (item :: items).map entry =
        (runs ++ [entry item]) ++ items.map entry := by
      rw [map_cons, append_assoc, singleton_append]
    rw [hassoc] at hnodup ⊢
    refine ih _ _ (hstep runs collected item h ?_) hnodup
    rw [map_append, map_append] at hnodup
    have hfirst := (nodup_append.mp hnodup).1
    exact fun hmem => (nodup_append.mp hfirst).2.2 _ hmem _ (mem_singleton_self _) rfl

/-- The run of a future that arrived. -/
def doneEntry (env : RouteEnv Result Trace) (future : RouteFuture) :
    ModelRoute × RouteRun Result Trace :=
  (future.route, env.futureRun future)

/-- The run of a route that did not arrive. -/
def lateEntry (env : RouteEnv Result Trace) (route : ModelRoute) :
    ModelRoute × RouteRun Result Trace :=
  (route, deadlineExceededRouteResult route env.deterministicResult)

theorem Settled.settleDone (h : env.Settled runs collected)
    (hnew : future.route.routeId ∉ runs.map fun entry => entry.1.routeId) :
    env.Settled (runs ++ [env.doneEntry future]) (env.settleDone collected future) := by
  have harrived : env.Settled runs { collected with arrived := collected.arrived ++ [future] } :=
    ⟨h.keys, h.completed, h.completions, h.deliveries⟩
  exact harrived.settle future.route (env.futureRun future) hnew

theorem arrived_foldl_settleDone (futures : List RouteFuture) :
    ∀ collected : Collected Result Trace,
      (futures.foldl env.settleDone collected).arrived = collected.arrived ++ futures := by
  induction futures with
  | nil => exact fun _ => (append_nil _).symm
  | cons future futures ih =>
    intro collected
    have hone : (env.settleDone collected future).arrived = collected.arrived ++ [future] :=
      (settle_spec env future.route (env.futureRun future) _).2.2.1
    rw [foldl_cons, ih, hone, append_assoc, singleton_append]

theorem arrived_foldl_settleLate (route : α → ModelRoute) (items : List α) :
    ∀ collected : Collected Result Trace,
      (items.foldl (fun collected item => env.settleLate collected (route item))
        collected).arrived = collected.arrived := by
  induction items with
  | nil => exact fun _ => rfl
  | cons item items ih =>
    intro collected
    rw [foldl_cons, ih]
    exact (settle_spec env (route item) _ collected).2.2.1

/-! ## The loop -/

/-- The loop settles some of the futures and leaves the others pending. -/
theorem awaitRoutes_spec (env : RouteEnv Result Trace) (routes : List ModelRoute)
    (pending : List RouteFuture) (reads call : Nat) (collected : Collected Result Trace) :
    ∃ done, (done ++ (env.awaitRoutes routes pending reads call collected).1).Perm pending ∧
      (env.awaitRoutes routes pending reads call collected).2 =
        done.foldl env.settleDone collected := by
  fun_induction awaitRoutes env routes pending reads call collected with
  | case1 reads call collected => exact ⟨[], .refl _, rfl⟩
  | case2 pending reads call collected _ hlate => exact ⟨[], .refl _, rfl⟩
  | case3 pending reads call collected _ _ hidle =>
    have hperm := env.waiter.perm call (env.remaining (reads + 1)) pending
    rw [hidle] at hperm
    exact ⟨[], hperm, rfl⟩
  | case4 pending reads call collected _ _ harrived ih =>
    obtain ⟨done, hdone, hcollected⟩ := ih
    refine ⟨inRouteOrder routes (env.waiter.wait call (env.remaining (reads + 1)) pending).1 ++
      done, ?_, ?_⟩
    · rw [append_assoc]
      refine .trans ?_ (env.waiter.perm call (env.remaining (reads + 1)) pending)
      exact (perm_insertionSort _ _).append hdone
    · rw [hcollected, foldl_append]

/-! ## The whole execution -/

/-- The run of a submitted future. -/
def entryOf (env : RouteEnv Result Trace) (arrived : List RouteFuture) (future : RouteFuture) :
    ModelRoute × RouteRun Result Trace :=
  if future ∈ arrived then env.doneEntry future else env.lateEntry future.route

theorem map_route_submitted : (submitted routes).map RouteFuture.route = routes := by
  rw [submitted, map_map]
  exact zipIdx_map_fst _ _

theorem nodup_submitted : (submitted routes).Nodup := by
  have hnumbers : ((submitted routes).map RouteFuture.number).Nodup := by
    rw [submitted, map_map]
    change (routes.zipIdx.map Prod.snd).Nodup
    rw [zipIdx_map_snd]
    exact nodup_range'
  exact .of_map _ hnumbers

/-- The routes that did not arrive. -/
theorem Settled.foldl_late (route : α → ModelRoute) (items : List α)
    (h : env.Settled runs collected)
    (hids : ((runs ++ items.map fun item => env.lateEntry (route item)).map fun e => e.1.routeId).Nodup) :
    env.Settled (runs ++ items.map fun item => env.lateEntry (route item))
      (items.foldl (fun collected item => env.settleLate collected (route item)) collected) :=
  Settled.foldl (fun _ _ item hsettled hnew => hsettled.settle (route item) _ hnew) items runs
    collected h hids

/-- What was collected in the end is a run for each submitted future, in some order. -/
theorem executeModelRoutes_settled (env : RouteEnv Result Trace) {routes : List ModelRoute}
    (hids : (routes.map ModelRoute.routeId).Nodup) :
    ∃ futures : List RouteFuture, futures.Perm (submitted routes) ∧
      env.Settled (futures.map (env.entryOf (env.executeModelRoutes routes).arrived))
        (env.executeModelRoutes routes) := by
  have hroutes := map_route_submitted routes
  unfold executeModelRoutes
  split
  · refine ⟨submitted routes, .refl _, ?_⟩
    have harrived : (routes.foldl env.settleLate ({} : Collected Result Trace)).arrived = [] :=
      arrived_foldl_settleLate id routes {}
    have hentries : (submitted routes).map (env.entryOf []) = routes.map env.lateEntry := by
      conv_rhs => rw [← hroutes, map_map]
      exact map_congr_left fun future _ => if_neg not_mem_nil
    rw [harrived, hentries]
    refine (env.settled_start []).foldl_late id routes ?_
    rw [nil_append, map_map]
    exact hids
  · dsimp only
    obtain ⟨done, hdone, hcollected⟩ := awaitRoutes_spec env routes (submitted routes) 1 0 {}
    generalize env.awaitRoutes routes (submitted routes) 1 0 {} = awaited at *
    have hperm : (done ++ env.setOrder.order awaited.1).Perm (submitted routes) :=
      ((env.setOrder.perm awaited.1).append_left done).trans hdone
    have hnodup := hperm.nodup_iff.mpr (nodup_submitted routes)
    refine ⟨done ++ env.setOrder.order awaited.1, hperm, ?_⟩
    have harrived : ((env.setOrder.order awaited.1).foldl (fun collected future =>
        env.settleLate collected future.route) awaited.2).arrived = done := by
      rw [arrived_foldl_settleLate RouteFuture.route, hcollected, arrived_foldl_settleDone]
      rfl
    have hentries : (done ++ env.setOrder.order awaited.1).map (env.entryOf done) =
        done.map env.doneEntry ++
          (env.setOrder.order awaited.1).map fun future => env.lateEntry future.route := by
      rw [map_append]
      refine congrArg₂ (· ++ ·) ?_ ?_
      · exact map_congr_left fun future hmem => if_pos hmem
      · refine map_congr_left fun future hmem => if_neg fun hold => ?_
        exact (nodup_append.mp hnodup).2.2 future hold future hmem rfl
    have hallIds : ((done.map env.doneEntry ++ (env.setOrder.order awaited.1).map
        fun future => env.lateEntry future.route).map fun e => e.1.routeId).Nodup := by
      have hrouted : ((done ++ env.setOrder.order awaited.1).map fun future =>
          future.route.routeId).Nodup := by
        refine (hperm.map _).nodup_iff.mpr ?_
        rw [← hroutes, map_map] at hids
        exact hids
      rw [map_append] at hrouted
      rw [map_append, map_map, map_map]
      exact hrouted
    rw [harrived, hentries]
    refine Settled.foldl_late RouteFuture.route _ ?_ hallIds
    rw [map_append] at hallIds
    rw [hcollected]
    exact Settled.foldl (fun _ _ future hsettled hnew => hsettled.settleDone future hnew) done []
      {} (env.settled_start []) (nodup_append.mp hallIds).1

/-- A future whose outcome is not of a run that returned. -/
def FailedOutside (outcome : Option (RunnerOutcome Result Trace)) : Prop :=
  ∀ run, outcome ≠ some (.returned run)

/-- Every route has one run under its id, and was called back for once. -/
structure EachOnce (env : RouteEnv Result Trace) (routes : List ModelRoute)
    (collected : Collected Result Trace) : Prop where
  keys : collected.completed.keys.Perm (routes.map ModelRoute.routeId)
  attributed : ∀ id run, collected.completed.get? id = some run → run.result.routeId = id
  settled : ∀ future ∈ submitted routes, collected.completed.get? future.route.routeId =
    some (env.kept (if future ∈ collected.arrived then env.futureRun future
      else deadlineExceededRouteResult future.route env.deterministicResult))
  deterministic : ∀ future ∈ submitted routes,
    future ∉ collected.arrived ∨ FailedOutside (env.outcome future) →
      ∃ run, collected.completed.get? future.route.routeId = some run ∧
        run.result.analysisResult = env.deterministicResult
  completions : env.onRouteComplete.isSome →
    collected.completions.Perm (routes.map ModelRoute.routeId)
  deliveries : env.onAttemptRecordReady.isSome → collected.deliveries.Perm
    ((submitted routes).filterMap fun future =>
      if future ∈ collected.arrived then (env.futureRun future).delivery future.route.routeId
      else none)
  deliveredOnce : env.onAttemptRecordReady.isSome → (collected.deliveries.map Prod.fst).Nodup

/-- An attempt record is delivered under the id of its route. -/
theorem map_fst_deliveries (runs : List (ModelRoute × RouteRun Result Trace)) : List.Sublist
    ((runs.filterMap fun entry => entry.2.delivery entry.1.routeId).map Prod.fst)
    (runs.map fun entry => entry.1.routeId) := by
  induction runs with
  | nil => exact .slnil
  | cons entry runs ih =>
    rw [filterMap_cons, map_cons]
    unfold RouteRun.delivery
    cases entry.2.attemptRecord with
    | none => exact ih.cons _
    | some record => exact ih.cons_cons _

theorem result_kept (run : RouteRun Result Trace) : (env.kept run).result = run.result := by
  unfold kept
  split <;> rfl

theorem routeId_futureRun (env : RouteEnv Result Trace) (future : RouteFuture) :
    (env.futureRun future).result.routeId = future.route.routeId := by
  unfold futureRun
  split
  · rfl
  · next outcome _ =>
    cases outcome <;> rfl

theorem analysisResult_futureRun {future : RouteFuture} (h : FailedOutside (env.outcome future)) :
    (env.futureRun future).result.analysisResult = env.deterministicResult := by
  unfold futureRun
  split
  · rfl
  · next outcome houtcome =>
    cases outcome with
    | factoryError error => rfl
    | runError error => rfl
    | traceError error => rfl
    | returned run => exact absurd houtcome (h run)

theorem routeId_entryOf (env : RouteEnv Result Trace) (arrived : List RouteFuture)
    (future : RouteFuture) : (env.entryOf arrived future).1 = future.route ∧
      (env.entryOf arrived future).2.result.routeId = future.route.routeId := by
  unfold entryOf
  split
  · exact ⟨rfl, routeId_futureRun env future⟩
  · exact ⟨rfl, rfl⟩

theorem executeModelRoutes_eachOnce (env : RouteEnv Result Trace) {routes : List ModelRoute}
    (hids : (routes.map ModelRoute.routeId).Nodup) :
    EachOnce env routes (env.executeModelRoutes routes) := by
  obtain ⟨futures, hperm, hsettled⟩ := executeModelRoutes_settled env hids
  generalize env.executeModelRoutes routes = collected at *
  have hids' : (futures.map fun future => future.route.routeId).Perm
      (routes.map ModelRoute.routeId) := by
    conv_rhs => rw [← map_route_submitted routes, map_map]
    exact hperm.map _
  have hmem : ∀ future ∈ submitted routes, env.entryOf collected.arrived future ∈
      futures.map (env.entryOf collected.arrived) := fun future hfuture =>
    mem_map_of_mem (hperm.mem_iff.mpr hfuture)
  have hget : ∀ future ∈ submitted routes, collected.completed.get? future.route.routeId =
      some (env.kept (env.entryOf collected.arrived future).2) := by
    intro future hfuture
    have hrun := hsettled.completed _ (hmem future hfuture)
    rwa [(routeId_entryOf env collected.arrived future).1] at hrun
  have hkeys : collected.completed.keys = futures.map fun future => future.route.routeId := by
    rw [hsettled.keys, map_map]
    exact map_congr_left fun future _ =>
      congrArg ModelRoute.routeId (routeId_entryOf env collected.arrived future).1
  refine ⟨hkeys ▸ hids', fun id run hrun => ?_, fun future hfuture => ?_,
    fun future hfuture hfailed => ?_, fun hsome => ?_, fun hsome => ?_, fun hsome => ?_⟩
  · have hkey := Dict.mem_keys_of_get? hrun
    rw [hkeys] at hkey
    obtain ⟨future, hfuture, rfl⟩ := mem_map.mp hkey
    rw [hget future (hperm.mem_iff.mp hfuture), Option.some.injEq] at hrun
    rw [← hrun, result_kept]
    exact (routeId_entryOf env collected.arrived future).2
  · rw [hget future hfuture, entryOf]
    split <;> rfl
  · refine ⟨_, hget future hfuture, ?_⟩
    rw [result_kept, entryOf]
    split
    · next harrived =>
      exact analysisResult_futureRun (hfailed.resolve_left fun hlate => hlate harrived)
    · rfl
  · rw [hsettled.completions hsome, map_map]
    refine (List.Perm.of_eq ?_).trans hids'
    exact map_congr_left fun future _ => (routeId_entryOf env collected.arrived future).2
  · rw [hsettled.deliveries hsome, filterMap_map]
    refine (hperm.filterMap _).trans (.of_eq (filterMap_congr fun future _ => ?_))
    rw [Function.comp_apply, (routeId_entryOf env collected.arrived future).1, entryOf]
    split <;> rfl
  · rw [hsettled.deliveries hsome]
    refine (map_fst_deliveries _).nodup ?_
    rw [← hsettled.keys, hkeys]
    exact hids'.nodup_iff.mpr hids

end RouteEnv

end ResiliencyExt.Attribution.RestartAgent
