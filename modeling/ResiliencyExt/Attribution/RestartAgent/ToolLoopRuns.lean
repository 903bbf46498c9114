import ResiliencyExt.Attribution.RestartAgent.ToolLoop

set_option autoImplicit false

/-!
# Restart agent: what a conversation keeps to

Whatever the provider, the tools and the clock do, a conversation sends a bounded number of
requests, each of them before the deadline and with every tool call answered, and reports
success with evidence that the contract accepts only.  Its records have every failed attempt
once, unless something that is no `LlmCallError` is raised after an attempt has failed
(`extractEvidence_faithful`).
-/

namespace ResiliencyExt.Attribution.RestartAgent.ToolLoop

open List

variable {Content ToolResult Evidence : Type}

/-! ## Messages -/

/-- Each message with tool calls is followed by one tool message for each call, in order. -/
inductive Answered : List (ChatMessage Content ToolResult) → Prop where
  | nil : Answered []
  | system {messages} : Answered messages → Answered (messages ++ [.system])
  | user {messages} (previousError : Option String) :
      Answered messages → Answered (messages ++ [.user previousError])
  | assistant {messages} (content : Content) :
      Answered messages → Answered (messages ++ [.assistant content []])
  | tools {messages} (content : Content) (calls : List ToolCall)
      (answers : List (ChatMessage Content ToolResult)) :
      Answered messages →
      List.Forall₂ (fun call answer => ∃ result, answer = .tool call.id call.name result)
        calls answers →
      Answered (messages ++ .assistant content calls :: answers)

/-! ## Requests -/

variable (env : Env Content ToolResult) (deadline : Option Int)

/-- The last reading of the clock before the request is before the deadline. -/
def InTime (request : Request Content ToolResult) : Prop :=
  ∀ limit, deadline = some limit → 0 < request.reads ∧ env.clock (request.reads - 1) < limit

/-- At most `count` requests are sent, each of them in time and with its tool calls answered. -/
def Sends (count : Nat) (world world' : World Content ToolResult) : Prop :=
  ∃ sent, world'.requests = world.requests ++ sent ∧ sent.length ≤ count ∧
    ∀ request ∈ sent, InTime env deadline request ∧ Answered request.messages

variable {env deadline}

theorem Sends.of_eq {world world' : World Content ToolResult}
    (h : world'.requests = world.requests) (count : Nat) : Sends env deadline count world world' :=
  ⟨[], by rw [h, append_nil], Nat.zero_le count, fun _ hr => absurd hr not_mem_nil⟩

theorem Sends.trans {count more : Nat} {first second third : World Content ToolResult}
    (h : Sends env deadline count first second) (h' : Sends env deadline more second third) :
    Sends env deadline (count + more) first third := by
  obtain ⟨sent, hsent, hlength, hall⟩ := h
  obtain ⟨sent', hsent', hlength', hall'⟩ := h'
  refine ⟨sent ++ sent', by rw [hsent', hsent, append_assoc], ?_, ?_⟩
  · rw [length_append]
    exact Nat.add_le_add hlength hlength'
  · exact forall_mem_append.mpr ⟨hall, hall'⟩

theorem Sends.mono {count more : Nat} {world world' : World Content ToolResult}
    (h : Sends env deadline count world world') (hle : count ≤ more) :
    Sends env deadline more world world' := by
  obtain ⟨sent, hsent, hlength, hall⟩ := h
  exact ⟨sent, hsent, Nat.le_trans hlength hle, hall⟩

/-! ## The clock -/

theorem remainingDeadline_world (env : Env Content ToolResult) (deadline : Option Int)
    (world : World Content ToolResult) :
    (remainingDeadline env deadline world).2 = world ∨
      (remainingDeadline env deadline world).2 = world.read := by
  unfold remainingDeadline
  split
  · exact .inl rfl
  · exact .inr rfl

theorem requests_remainingDeadline (env : Env Content ToolResult) (deadline : Option Int)
    (world : World Content ToolResult) :
    (remainingDeadline env deadline world).2.requests = world.requests ∧
      (remainingDeadline env deadline world).2.failures = world.failures ∧
      (remainingDeadline env deadline world).2.posts = world.posts := by
  rcases remainingDeadline_world env deadline world with h | h <;>
    rw [h] <;> exact ⟨rfl, rfl, rfl⟩

/-- A deadline that has not come at a reading. -/
theorem inTime_of_remaining {world : World Content ToolResult}
    (h : ¬ (remainingDeadline env deadline world).1.any (· ≤ 0) = true)
    (messages : List (ChatMessage Content ToolResult)) :
    InTime env deadline ⟨messages, (remainingDeadline env deadline world).2.reads⟩ := by
  intro limit hlimit
  subst hlimit
  have hlate : ¬ max 0 (limit - env.clock world.reads) ≤ 0 := by
    simpa [remainingDeadline] using h
  refine ⟨Nat.succ_pos _, ?_⟩
  change env.clock (world.reads + 1 - 1) < limit
  rw [Nat.add_sub_cancel]
  omega

/-! ## Records -/

/-- The record of an attempt that failed; the other failures are of no attempt. -/
def CallRecord.ofAttempt (record : CallRecord) : Bool :=
  !record.success && (record.deadlineReason = none ||
    record.deadlineReason = some .beforeHttpRequest ||
    record.deadlineReason = some .afterHttpResponse)

/-- A record without the marks of the retry loop. -/
def CallRecord.unmarked (record : CallRecord) : CallRecord :=
  { record with retryScheduled := false, retryBlockedByDeadline := false }

/-- The failed attempts that are recorded, as they were raised. -/
def attemptRecords (records : List CallRecord) : List CallRecord :=
  (records.filter CallRecord.ofAttempt).map CallRecord.unmarked

theorem attemptRecords_append (records more : List CallRecord) :
    attemptRecords (records ++ more) = attemptRecords records ++ attemptRecords more := by
  rw [attemptRecords, filter_append, map_append, attemptRecords, attemptRecords]

/-- A record as the transport raises it. -/
def IsRaised (record : CallRecord) : Prop :=
  record.ofAttempt = true ∧ record.unmarked = record

theorem attemptRecords_of_unmarked {record marked : CallRecord} (h : IsRaised record)
    (hof : marked.ofAttempt = record.ofAttempt) (hunmarked : marked.unmarked = record.unmarked) :
    attemptRecords [marked] = [record] := by
  rw [attemptRecords, filter_cons_of_pos (hof.trans h.1), filter_nil, map_singleton,
    hunmarked, h.2]

theorem attemptRecords_success {record : CallRecord} (h : record.success = true) :
    attemptRecords [record] = [] := by
  have hof : ¬ record.ofAttempt = true := by
    rw [CallRecord.ofAttempt, h]
    exact Bool.false_ne_true
  rw [attemptRecords, filter_cons_of_neg hof, filter_nil, map_nil]

theorem isRaised_failure (failure : Failure) (modelTurn attempt : Nat) :
    IsRaised (failure.record modelTurn attempt) :=
  ⟨rfl, rfl⟩

/-! ## Attempts -/

def IsFailure : ProviderOutcome Content → Prop
  | .failure _ => True
  | _ => False

/-- Every failure so far is one that the provider reported. -/
def Explained (env : Env Content ToolResult) (world : World Content ToolResult) : Prop :=
  world.failures ≠ [] → ∃ m < world.posts, IsFailure (env.provider m)

/-- The last outcome is number `n`, and the failures are of outcomes before it. -/
def Last (env : Env Content ToolResult) (n : Nat) (world : World Content ToolResult) : Prop :=
  world.posts = n + 1 ∧ (world.failures ≠ [] → ∃ m < n, IsFailure (env.provider m))

theorem Last.explained {n : Nat} {world : World Content ToolResult} (h : Last env n world) :
    Explained env world := by
  intro hne
  obtain ⟨m, hm, hfailure⟩ := h.2 hne
  exact ⟨m, by rw [h.1]; exact Nat.lt_succ_of_lt hm, hfailure⟩

/-- What an attempt leaves behind. -/
def Attempted (env : Env Content ToolResult) (world world' : World Content ToolResult) :
    CallOutcome Content → Prop
  | .returned response record =>
    world'.failures = world.failures ∧ record.success = true ∧
      record.finishReason = response.finishReason ∧
      ∃ n, env.provider n = .payload (some response) ∧ Last env n world'
  | .callError record =>
    world'.failures = world.failures ++ [record] ∧ IsRaised record ∧
      (record.retryable = true → Explained env world')
  | .raised =>
    world'.failures = world.failures ∧
      ∃ n, (env.provider n = .raised ∨ env.provider n = .payload none) ∧ Last env n world'

theorem transportCall_spec (deadline : Option Int)
    {messages : List (ChatMessage Content ToolResult)}
    (hanswered : Answered messages) (modelTurn attempt : Nat) {world : World Content ToolResult}
    (hexplained : Explained env world) :
    Sends env deadline 1 world (transportCall env deadline messages modelTurn attempt world).2 ∧
      Attempted env world (transportCall env deadline messages modelTurn attempt world).2
        (transportCall env deadline messages modelTurn attempt world).1 := by
  obtain ⟨hrequests, hfailures, hposts⟩ := requests_remainingDeadline env deadline world.read
  have hread : world.read.requests = world.requests ∧ world.read.failures = world.failures ∧
      world.read.posts = world.posts := ⟨rfl, rfl, rfl⟩
  rw [hread.1] at hrequests
  rw [hread.2.1] at hfailures
  rw [hread.2.2] at hposts
  unfold transportCall
  dsimp only
  split
  · exact ⟨.of_eq hrequests 1, by
      refine ⟨congrArg (· ++ _) hfailures, ⟨rfl, rfl⟩, fun h => ?_⟩
      cases h⟩
  · next hlate =>
    have hintime := inTime_of_remaining hlate messages
    generalize (remainingDeadline env deadline world.read).2 = asked at *
    have hsends : ∀ world' : World Content ToolResult,
        world'.requests = asked.requests ++ [⟨messages, asked.reads⟩] →
        Sends env deadline 1 world world' := by
      intro world' hworld'
      refine ⟨[⟨messages, asked.reads⟩], hworld'.trans (by rw [hrequests]), Nat.le_refl 1, ?_⟩
      rw [forall_mem_singleton]
      exact ⟨hintime, hanswered⟩
    have hlast : ∀ world' : World Content ToolResult, world'.posts = asked.posts + 1 →
        world'.failures = world.failures → Last env asked.posts world' := by
      intro world' hworld' hsame
      refine ⟨hworld', fun hne => ?_⟩
      rw [hposts]
      exact hexplained (hsame ▸ hne)
    obtain ⟨hrequests', hfailures', hposts'⟩ :=
      requests_remainingDeadline env deadline (asked.post messages)
    split
    · next failure hprovider =>
      refine ⟨hsends _ rfl, congrArg (· ++ _) hfailures, isRaised_failure failure _ _, ?_⟩
      intro _ _
      exact ⟨asked.posts, Nat.lt_succ_self _, by rw [hprovider]; trivial⟩
    · next hprovider =>
      exact ⟨hsends _ rfl, hfailures, asked.posts, .inl hprovider, hlast _ rfl hfailures⟩
    · next response hprovider =>
      split
      · refine ⟨hsends _ hrequests', congrArg (· ++ _) (hfailures'.trans hfailures),
          ⟨rfl, rfl⟩, fun h => ?_⟩
        cases h
      · split
        · exact ⟨hsends _ hrequests', hfailures'.trans hfailures, asked.posts, .inr hprovider,
            hlast _ hposts' (hfailures'.trans hfailures)⟩
        · exact ⟨hsends _ hrequests', hfailures'.trans hfailures, rfl, rfl, asked.posts,
            hprovider, hlast _ hposts' (hfailures'.trans hfailures)⟩

/-! ## Attempts one after another -/

/-- What the retry loop leaves behind. -/
def Retried (env : Env Content ToolResult) (prior : List CallRecord)
    (world world' : World Content ToolResult) : RetryOutcome Content → Prop
  | .returned response record prior' =>
    record.success = true ∧ record.finishReason = response.finishReason ∧
      (∃ n, env.provider n = .payload (some response) ∧ Last env n world') ∧
      ∃ lost, attemptRecords prior' = attemptRecords prior ++ lost ∧
        world'.failures = world.failures ++ lost
  | .callError record prior' =>
    ∃ lost, attemptRecords (prior' ++ [record]) = attemptRecords prior ++ lost ∧
      world'.failures = world.failures ++ lost
  | .raised =>
    (∃ n, (env.provider n = .raised ∨ env.provider n = .payload none) ∧ Last env n world') ∧
      ∃ lost, world'.failures = world.failures ++ lost

/-- The records and the failures of a retry go on from those of the first attempts. -/
theorem Retried.prepend {prior prior' : List CallRecord} {record : CallRecord}
    {world middle world' : World Content ToolResult} {outcome : RetryOutcome Content}
    (hprior : attemptRecords prior' = attemptRecords prior ++ [record])
    (hmiddle : middle.failures = world.failures ++ [record])
    (h : Retried env prior' middle world' outcome) : Retried env prior world world' outcome := by
  cases outcome with
  | returned response last prior'' =>
    obtain ⟨hsuccess, hfinish, hlast, lost, hrecords, hfailures⟩ := h
    refine ⟨hsuccess, hfinish, hlast, record :: lost, ?_, ?_⟩
    · rw [hrecords, hprior, append_assoc, singleton_append]
    · rw [hfailures, hmiddle, append_assoc, singleton_append]
  | callError last prior'' =>
    obtain ⟨lost, hrecords, hfailures⟩ := h
    refine ⟨record :: lost, ?_, ?_⟩
    · rw [hrecords, hprior, append_assoc, singleton_append]
    · rw [hfailures, hmiddle, append_assoc, singleton_append]
  | raised =>
    obtain ⟨hlast, lost, hfailures⟩ := h
    refine ⟨hlast, record :: lost, ?_⟩
    rw [hfailures, hmiddle, append_assoc, singleton_append]

theorem Explained.of_eq {world world' : World Content ToolResult} (h : Explained env world)
    (hfailures : world'.failures = world.failures) (hposts : world'.posts = world.posts) :
    Explained env world' := by
  unfold Explained
  rw [hfailures, hposts]
  exact h

theorem Sends.of_requests {count : Nat} {world world' world'' : World Content ToolResult}
    (hrequests : world'.requests = world.requests) (h : Sends env deadline count world' world'') :
    Sends env deadline count world world'' := by
  obtain ⟨sent, hsent, hlength, hall⟩ := h
  exact ⟨sent, by rw [hsent, hrequests], hlength, hall⟩

theorem Attempted.of_failures {world world' world'' : World Content ToolResult}
    {outcome : CallOutcome Content} (hfailures : world'.failures = world.failures)
    (h : Attempted env world' world'' outcome) : Attempted env world world'' outcome := by
  cases outcome with
  | returned response record => exact ⟨h.1.trans hfailures, h.2⟩
  | callError record => exact ⟨h.1.trans (congrArg (· ++ _) hfailures), h.2⟩
  | raised => exact ⟨h.1.trans hfailures, h.2⟩

theorem attemptCall_spec (deadline : Option Int)
    {messages : List (ChatMessage Content ToolResult)} (hanswered : Answered messages)
    (modelTurn attempt : Nat) {world : World Content ToolResult}
    (hexplained : Explained env world) :
    Sends env deadline 1 world (attemptCall env deadline messages modelTurn attempt world).2 ∧
      Attempted env world (attemptCall env deadline messages modelTurn attempt world).2
        (attemptCall env deadline messages modelTurn attempt world).1 := by
  obtain ⟨hrequests, hfailures, hposts⟩ := requests_remainingDeadline env deadline world
  obtain ⟨hsends, hattempted⟩ := transportCall_spec deadline hanswered modelTurn
    attempt (hexplained.of_eq hfailures hposts)
  exact ⟨hsends.of_requests hrequests, hattempted.of_failures hfailures⟩

/-- A failure that is of no attempt adds nothing to the records of attempts. -/
theorem attemptRecords_deadline (prior : List CallRecord) (modelTurn attempt : Nat)
    {reason : DeadlineReason}
    (hreason : reason ≠ .beforeHttpRequest ∧ reason ≠ .afterHttpResponse) :
    attemptRecords (prior ++ [deadlineRecord modelTurn attempt reason]) = attemptRecords prior := by
  have hof : ¬ (deadlineRecord modelTurn attempt reason).ofAttempt = true := by
    simp [CallRecord.ofAttempt, deadlineRecord, hreason.1, hreason.2]
  rw [attemptRecords_append]
  exact (congrArg (attemptRecords prior ++ map CallRecord.unmarked ·)
    (filter_cons_of_neg hof)).trans (append_nil _)

theorem retryLoop_spec (deadline : Option Int) (config : LlmConfig)
    {messages : List (ChatMessage Content ToolResult)} (hanswered : Answered messages)
    (modelTurn left : Nat) :
    ∀ (attempt : Nat) (prior : List CallRecord) (world : World Content ToolResult),
      Explained env world →
      Sends env deadline (left + 1) world
          (retryLoop env deadline config messages modelTurn left attempt prior world).2 ∧
        Retried env prior world
          (retryLoop env deadline config messages modelTurn left attempt prior world).2
          (retryLoop env deadline config messages modelTurn left attempt prior world).1 := by
  induction left with
  | zero =>
    intro attempt prior world hexplained
    obtain ⟨hrequests, hfailures, hposts⟩ := requests_remainingDeadline env deadline world
    unfold retryLoop
    dsimp only [deadlineExpired]
    split
    · refine ⟨.of_eq hrequests 1, [], ?_, by rw [hfailures, append_nil]⟩
      rw [attemptRecords_deadline _ _ _ (by decide), append_nil]
    · obtain ⟨hsends, hattempted⟩ := attemptCall_spec deadline hanswered modelTurn attempt
        (hexplained.of_eq hfailures hposts)
      have hsends := hsends.of_requests hrequests
      have hattempted := hattempted.of_failures hfailures
      generalize attemptCall env deadline messages modelTurn attempt
        (remainingDeadline env deadline world).2 = call at *
      obtain ⟨outcome, world'⟩ := call
      cases outcome with
      | returned response record =>
        obtain ⟨hsame, hsuccess, hfinish, hlast⟩ := hattempted
        exact ⟨hsends, hsuccess, hfinish, hlast, [], (append_nil _).symm, by
          rw [hsame, append_nil]⟩
      | raised =>
        obtain ⟨hsame, hlast⟩ := hattempted
        exact ⟨hsends, hlast, [], by rw [hsame, append_nil]⟩
      | callError record =>
        obtain ⟨hmore, hraised, -⟩ := hattempted
        refine ⟨hsends, [record], ?_, hmore⟩
        rw [attemptRecords_append, attemptRecords_of_unmarked hraised rfl rfl]
  | succ left ih =>
    intro attempt prior world hexplained
    obtain ⟨hrequests, hfailures, hposts⟩ := requests_remainingDeadline env deadline world
    unfold retryLoop
    dsimp only [deadlineExpired]
    split
    · refine ⟨.of_eq hrequests _, [], ?_, by rw [hfailures, append_nil]⟩
      rw [attemptRecords_deadline _ _ _ (by decide), append_nil]
    · obtain ⟨hsends, hattempted⟩ := attemptCall_spec deadline hanswered modelTurn attempt
        (hexplained.of_eq hfailures hposts)
      have hsends := hsends.of_requests hrequests
      have hattempted := hattempted.of_failures hfailures
      have hmono : 1 ≤ left + 1 + 1 := by omega
      generalize attemptCall env deadline messages modelTurn attempt
        (remainingDeadline env deadline world).2 = call at *
      obtain ⟨outcome, world'⟩ := call
      cases outcome with
      | returned response record =>
        obtain ⟨hsame, hsuccess, hfinish, hlast⟩ := hattempted
        exact ⟨hsends.mono hmono, hsuccess, hfinish, hlast, [], (append_nil _).symm, by
          rw [hsame, append_nil]⟩
      | raised =>
        obtain ⟨hsame, hlast⟩ := hattempted
        exact ⟨hsends.mono hmono, hlast, [], by rw [hsame, append_nil]⟩
      | callError record =>
        obtain ⟨hmore, hraised, hagain⟩ := hattempted
        dsimp only
        split
        · next hretryable =>
          obtain ⟨hrequests', hfailures', hposts'⟩ :=
            requests_remainingDeadline env deadline world'
          have hmarked : ∀ marked : CallRecord, marked.ofAttempt = record.ofAttempt →
              marked.unmarked = record.unmarked →
              attemptRecords (prior ++ [marked]) = attemptRecords prior ++ [record] := by
            intro marked hof hunmarked
            rw [attemptRecords_append, attemptRecords_of_unmarked hraised hof hunmarked]
          split
          · refine ⟨(hsends.trans (.of_eq hrequests' 0)).mono (by omega), [record], ?_,
              hfailures'.trans hmore⟩
            rw [attemptRecords_deadline _ _ _ (by decide)]
            exact hmarked _ rfl rfl
          · obtain ⟨hsends', hretried⟩ := ih (attempt + 1)
              (prior ++ [{ record with retryScheduled := true }])
              (remainingDeadline env deadline world').2
              ((hagain hretryable).of_eq hfailures' hposts')
            refine ⟨(hsends.trans (hsends'.of_requests hrequests')).mono (by omega), ?_⟩
            have hrecords := hmarked { record with retryScheduled := true } rfl rfl
            exact hretried.prepend hrecords (hfailures'.trans hmore)
        · refine ⟨hsends.mono hmono, [record], ?_, hmore⟩
          rw [attemptRecords_append, attemptRecords_of_unmarked hraised rfl rfl]

/-! ## The turns of a conversation -/

/-- The records of a conversation have every failed attempt once, in order. -/
def Accurate (state : ToolConversation Content ToolResult) (world : World Content ToolResult) :
    Prop :=
  attemptRecords state.modelCalls = world.failures

/-- What is raised in a conversation, and is no failure with a record: by the transport, by the
tool calls of the message, by their arguments, or by its content. -/
def Unexpected (decode : Content → Decoded Evidence) : ProviderOutcome Content → Prop
  | .failure _ => False
  | .raised => True
  | .payload none => True
  | .payload (some response) =>
    response.message.toolCalls = none ∨
    (∃ calls, response.message.toolCalls = some calls ∧ ∃ call ∈ calls, call.readable = false) ∨
    (response.message.toolCalls = some [] ∧ response.finishReason ≠ some "length" ∧
      ∃ error, decode response.message.content = .raised error)

/-- Of the outcomes that are read, none is unexpected after an attempt has failed. -/
def Accounted (env : Env Content ToolResult) (decode : Content → Decoded Evidence)
    (world : World Content ToolResult) : Prop :=
  ∀ n < world.posts, Unexpected decode (env.provider n) → ∀ m < n, ¬ IsFailure (env.provider m)

theorem Last.failures_eq_nil {n : Nat} {world : World Content ToolResult}
    {decode : Content → Decoded Evidence} (h : Last env n world)
    (haccounted : Accounted env decode world) (hunexpected : Unexpected decode (env.provider n)) :
    world.failures = [] := by
  by_contra hne
  obtain ⟨m, hm, hfailure⟩ := h.2 hne
  exact haccounted n (h.1.symm ▸ Nat.lt_succ_self n) hunexpected m hm hfailure

theorem unexpected_of_raised {decode : Content → Decoded Evidence}
    {outcome : ProviderOutcome Content} (h : outcome = .raised ∨ outcome = .payload none) :
    Unexpected decode outcome := by
  rcases h with rfl | rfl <;> trivial

/-- The requests of one turn. -/
def turnRequests (config : LlmConfig) : Nat :=
  (max 0 config.maxRetries).toNat + 1

/-- What a call of the model leaves behind. -/
def Called (env : Env Content ToolResult) (state state' : ToolConversation Content ToolResult)
    (world world' : World Content ToolResult) : CallOutcome Content → Prop
  | .returned response record =>
    state'.messages = state.messages ∧ Accurate state' world' ∧ record.success = true ∧
      record.finishReason = response.finishReason ∧
      ∃ n, env.provider n = .payload (some response) ∧ Last env n world'
  | .callError record => attemptRecords (state'.modelCalls ++ [record]) = world'.failures
  | .raised =>
    state' = state ∧ (∃ lost, world'.failures = world.failures ++ lost) ∧
      ∃ n, (env.provider n = .raised ∨ env.provider n = .payload none) ∧ Last env n world'

theorem callModelWithRetries_spec (deadline : Option Int) (config : LlmConfig)
    {state : ToolConversation Content ToolResult} {world : World Content ToolResult}
    (hanswered : Answered state.messages) (haccurate : Accurate state world)
    (hexplained : Explained env world) (modelTurn : Nat) :
    Sends env deadline (turnRequests config) world
        (callModelWithRetries env deadline config state modelTurn world).2.2 ∧
      Called env state (callModelWithRetries env deadline config state modelTurn world).2.1 world
        (callModelWithRetries env deadline config state modelTurn world).2.2
        (callModelWithRetries env deadline config state modelTurn world).1 := by
  obtain ⟨hsends, hretried⟩ := retryLoop_spec deadline config hanswered modelTurn
    (max 0 config.maxRetries).toNat 1 [] world hexplained
  unfold callModelWithRetries retryingCall
  generalize retryLoop env deadline config state.messages modelTurn
    (max 0 config.maxRetries).toNat 1 [] world = call at *
  obtain ⟨outcome, world'⟩ := call
  cases outcome with
  | returned response record prior =>
    obtain ⟨hsuccess, hfinish, hlast, lost, hrecords, hfailures⟩ := hretried
    refine ⟨hsends, rfl, ?_, hsuccess, hfinish, hlast⟩
    unfold Accurate at haccurate ⊢
    rw [attemptRecords_append, hrecords, haccurate, hfailures]
    rfl
  | callError record prior =>
    obtain ⟨lost, hrecords, hfailures⟩ := hretried
    refine ⟨hsends, ?_⟩
    unfold Accurate at haccurate
    change attemptRecords ((state.modelCalls ++ prior) ++ [record]) = world'.failures
    rw [append_assoc, attemptRecords_append, hrecords, haccurate, hfailures]
    rfl
  | raised =>
    obtain ⟨hlast, hlost⟩ := hretried
    exact ⟨hsends, rfl, hlost, hlast⟩

/-! ### Results -/

/-- Success is reported with evidence that the contract accepts. -/
def Sound (contractErrors : Evidence → List String) (result : L1EvidenceResult Content Evidence) :
    Prop :=
  result.success = true → ∃ evidence, result.evidence = some evidence ∧
    contractErrors evidence = []

theorem sound_of_failure {contractErrors : Evidence → List String}
    {result : L1EvidenceResult Content Evidence} (h : result.success = false) :
    Sound contractErrors result := by
  intro hsuccess
  rw [h] at hsuccess
  cases hsuccess

theorem contractErrors_of_parse {decode : Content → Decoded Evidence}
    {contractErrors : Evidence → List String} {content : Content} {evidence : Evidence}
    (h : parseModelEvidence decode contractErrors content = .evidence evidence) :
    contractErrors evidence = [] := by
  unfold parseModelEvidence at h
  split at h
  · split at h
    · next hnone =>
      cases h
      exact hnone
    · cases h
  · next hnot => exact absurd h (hnot evidence)

theorem decode_of_parse_raised {decode : Content → Decoded Evidence}
    {contractErrors : Evidence → List String} {content : Content} {error : String}
    (h : parseModelEvidence decode contractErrors content = .raised error) :
    decode content = .raised error := by
  unfold parseModelEvidence at h
  split at h
  · split at h <;> cases h
  · exact h

/-! ### One turn -/

/-- What a request of the model leaves behind. -/
def Requested (env : Env Content ToolResult) (decode : Content → Decoded Evidence)
    (state state' : ToolConversation Content ToolResult) (world' : World Content ToolResult) :
    Part Content Evidence (ResponseMessage Content × List ToolCall × CallRecord) → Prop
  | .value value =>
    state'.messages = state.messages ∧ Accurate state' world' ∧
      ∃ n response, env.provider n = .payload (some response) ∧ Last env n world' ∧
        response.message = value.1 ∧ response.message.toolCalls = some value.2.1 ∧
        value.2.2.finishReason = response.finishReason
  | .result result => result.success = false ∧ attemptRecords result.modelCalls = world'.failures
  | .raised => Accounted env decode world' → world'.failures = []

theorem requestModel_spec (deadline : Option Int) (decode : Content → Decoded Evidence)
    (config : LlmConfig) (modelTurn : Nat) {state : ToolConversation Content ToolResult}
    {world : World Content ToolResult} (hanswered : Answered state.messages)
    (haccurate : Accurate state world) (hexplained : Explained env world) :
    Sends env deadline (turnRequests config) world
        (@requestModel Content ToolResult Evidence env deadline config modelTurn state world).2.2 ∧
      Requested env decode state
        (@requestModel Content ToolResult Evidence env deadline config modelTurn state world).2.1
        (@requestModel Content ToolResult Evidence env deadline config modelTurn state world).2.2
        (@requestModel Content ToolResult Evidence env deadline config modelTurn state world).1 := by
  obtain ⟨hsends, hcalled⟩ := callModelWithRetries_spec deadline config hanswered haccurate
    hexplained modelTurn
  unfold requestModel
  generalize callModelWithRetries env deadline config state modelTurn world = call at *
  obtain ⟨outcome, state', world'⟩ := call
  cases outcome with
  | callError record => exact ⟨hsends, rfl, hcalled⟩
  | raised =>
    obtain ⟨-, -, n, hprovider, hlast⟩ := hcalled
    exact ⟨hsends, fun haccounted =>
      hlast.failures_eq_nil haccounted (unexpected_of_raised hprovider)⟩
  | returned response record =>
    obtain ⟨hmessages, haccurate', hsuccess, hfinish, n, hprovider, hlast⟩ := hcalled
    have hrecorded : attemptRecords (state'.modelCalls ++ [record]) = world'.failures := by
      rw [attemptRecords_append, attemptRecords_success hsuccess, append_nil]
      exact haccurate'
    dsimp only
    split
    · next hcalls =>
      refine ⟨hsends, fun haccounted => hlast.failures_eq_nil haccounted ?_⟩
      rw [hprovider]
      exact .inl hcalls
    · next calls hcalls =>
      exact ⟨hsends, hmessages, hrecorded, n, response, hprovider, hlast, rfl, hcalls, hfinish⟩

/-- What the tools of a message leave behind. -/
def Dispatched (calls : List ToolCall) (state state' : ToolConversation Content ToolResult) :
    Part Content Evidence Unit → Prop
  | .value _ =>
    state'.modelCalls = state.modelCalls ∧ ∃ answers,
      state'.messages = state.messages ++ answers ∧
      List.Forall₂ (fun call answer => ∃ result, answer = .tool call.id call.name result)
        calls answers
  | .result result =>
    result.success = false ∧ attemptRecords result.modelCalls = attemptRecords state.modelCalls
  | .raised => ∃ call ∈ calls, call.readable = false

/-- The tools send no request. -/
def SameRequests (world world' : World Content ToolResult) : Prop :=
  world'.requests = world.requests ∧ world'.failures = world.failures ∧ world'.posts = world.posts

theorem SameRequests.trans {first second third : World Content ToolResult}
    (h : SameRequests first second) (h' : SameRequests second third) : SameRequests first third :=
  ⟨h'.1.trans h.1, h'.2.1.trans h.2.1, h'.2.2.trans h.2.2⟩

theorem sameRequests_deadlineExpired (env : Env Content ToolResult) (deadline : Option Int)
    (world : World Content ToolResult) :
    SameRequests world (deadlineExpired env deadline world).2 :=
  requests_remainingDeadline env deadline world

theorem dispatchLoop_spec (env : Env Content ToolResult) (deadline : Option Int)
    (config : LlmConfig) (modelTurn : Nat) (calls : List ToolCall) :
    ∀ (state : ToolConversation Content ToolResult) (world : World Content ToolResult),
      SameRequests world
        (@dispatchLoop Content ToolResult Evidence env deadline config modelTurn calls state world).2.2 ∧
      Dispatched calls state
        (@dispatchLoop Content ToolResult Evidence env deadline config modelTurn calls state world).2.1
        (@dispatchLoop Content ToolResult Evidence env deadline config modelTurn calls state world).1 := by
  induction calls with
  | nil =>
    intro state world
    exact ⟨⟨rfl, rfl, rfl⟩, rfl, [], (append_nil _).symm, .nil⟩
  | cons call calls ih =>
    intro state world
    have hbefore := sameRequests_deadlineExpired env deadline world
    unfold dispatchLoop
    dsimp only
    split
    · refine ⟨hbefore, rfl, ?_⟩
      exact attemptRecords_deadline _ _ _ (by decide)
    · split
      · have hanswered : SameRequests world (answerToolCall env config call state
            (deadlineExpired env deadline world).2).2 := hbefore
        have hafter := hanswered.trans (sameRequests_deadlineExpired env deadline _)
        split
        · refine ⟨hafter, rfl, ?_⟩
          exact attemptRecords_deadline _ _ _ (by decide)
        · obtain ⟨hsame, hdispatched⟩ := ih
            (answerToolCall env config call state (deadlineExpired env deadline world).2).1
            (deadlineExpired env deadline (answerToolCall env config call state
              (deadlineExpired env deadline world).2).2).2
          refine ⟨hafter.trans hsame, ?_⟩
          generalize dispatchLoop env deadline config modelTurn calls _ _ = rest at *
          obtain ⟨part, state', world'⟩ := rest
          cases part with
          | value _ =>
            obtain ⟨hcalls, answers, hmessages, hanswers⟩ := hdispatched
            refine ⟨hcalls, .tool call.id call.name
              (env.tools (deadlineExpired env deadline world).2.toolRuns) :: answers, ?_,
              .cons ⟨_, rfl⟩ hanswers⟩
            exact hmessages.trans (append_assoc _ _ _)
          | result result => exact hdispatched
          | raised =>
            obtain ⟨other, hmem, hunreadable⟩ := hdispatched
            exact ⟨other, mem_cons_of_mem call hmem, hunreadable⟩
      · next hunreadable =>
        exact ⟨hbefore, call, mem_cons_self, Bool.eq_false_iff.mpr hunreadable⟩

/-! ### All turns -/

/-- What the turns leave behind. -/
def Rounded (env : Env Content ToolResult) (decode : Content → Decoded Evidence)
    (contractErrors : Evidence → List String) (state' : ToolConversation Content ToolResult)
    (world' : World Content ToolResult) : Part Content Evidence (Option String) → Prop
  | .value _ => Accurate state' world' ∧ Answered state'.messages ∧ Explained env world'
  | .result result =>
    Sound contractErrors result ∧ attemptRecords result.modelCalls = world'.failures
  | .raised => Accounted env decode world' → world'.failures = []

theorem Last.of_same {n : Nat} {world world' : World Content ToolResult} (h : Last env n world)
    (hsame : SameRequests world world') : Last env n world' := by
  unfold Last
  rw [hsame.2.1, hsame.2.2]
  exact h

theorem sound_successful {state : ToolConversation Content ToolResult}
    {contractErrors : Evidence → List String} {evidence : Evidence}
    (h : contractErrors evidence = []) :
    Sound contractErrors (successfulEvidenceResult state evidence) :=
  fun _ => ⟨evidence, rfl, h⟩

theorem toolRounds_spec (deadline : Option Int) (decode : Content → Decoded Evidence)
    (contractErrors : Evidence → List String) (config : LlmConfig) (turns : Nat) :
    ∀ (modelTurn : Nat) (state : ToolConversation Content ToolResult)
      (world : World Content ToolResult), Answered state.messages → Accurate state world →
      Explained env world →
      Sends env deadline (turns * turnRequests config) world
          (toolRounds env deadline decode contractErrors config turns modelTurn state world).2.2 ∧
        Rounded env decode contractErrors
          (toolRounds env deadline decode contractErrors config turns modelTurn state world).2.1
          (toolRounds env deadline decode contractErrors config turns modelTurn state world).2.2
          (toolRounds env deadline decode contractErrors config turns modelTurn state world).1 := by
  induction turns with
  | zero =>
    intro modelTurn state world hanswered haccurate hexplained
    exact ⟨.of_eq rfl _, haccurate, hanswered, hexplained⟩
  | succ turns ih =>
    intro modelTurn state world hanswered haccurate hexplained
    obtain ⟨hsends, hrequested⟩ := @requestModel_spec Content ToolResult Evidence env deadline
      decode config modelTurn state world hanswered haccurate hexplained
    have hone : turnRequests config ≤ (turns + 1) * turnRequests config :=
      Nat.le_mul_of_pos_left _ (Nat.succ_pos turns)
    unfold toolRounds
    generalize requestModel env deadline config modelTurn state world = request at *
    obtain ⟨part, state', world'⟩ := request
    cases part with
    | result result =>
      exact ⟨hsends.mono hone, sound_of_failure hrequested.1, hrequested.2⟩
    | raised => exact ⟨hsends.mono hone, hrequested⟩
    | value value =>
      obtain ⟨message, calls, record⟩ := value
      obtain ⟨hmessages, haccurate', n, response, hprovider, hlast, rfl, hcalls, hfinish⟩ :=
        hrequested
      have hanswered' : Answered state'.messages := by
        rw [show state'.messages = state.messages from hmessages]
        exact hanswered
      cases calls with
      | nil =>
        dsimp only
        split
        · exact ⟨hsends.mono hone, haccurate', .assistant _ hanswered', hlast.explained⟩
        · next hlength =>
          split
          · next evidence hparse =>
            exact ⟨hsends.mono hone, sound_successful (contractErrors_of_parse hparse),
              haccurate'⟩
          · exact ⟨hsends.mono hone, haccurate', .assistant _ hanswered', hlast.explained⟩
          · next error hparse =>
            refine ⟨hsends.mono hone, fun haccounted =>
              hlast.failures_eq_nil haccounted ?_⟩
            rw [hprovider]
            exact .inr (.inr ⟨hcalls, fun h => hlength (hfinish.trans h), error,
              decode_of_parse_raised hparse⟩)
      | cons call calls =>
        obtain ⟨hsame, hdispatched⟩ := @dispatchLoop_spec Content ToolResult Evidence env
          deadline config modelTurn (call :: calls)
          { state' with messages := state'.messages ++
              [.assistant response.message.content (call :: calls)] } world'
        dsimp only
        unfold dispatchTools
        generalize dispatchLoop env deadline config modelTurn (call :: calls) _ world' =
          dispatched at *
        obtain ⟨part, state'', world''⟩ := dispatched
        have hsends' : Sends env deadline (turnRequests config) world world'' :=
          hsends.trans (.of_eq hsame.1 0)
        have hlast' : Last env n world'' := hlast.of_same hsame
        cases part with
        | result result =>
          exact ⟨hsends'.mono hone, sound_of_failure hdispatched.1,
            hdispatched.2.trans (haccurate'.trans hsame.2.1.symm)⟩
        | raised =>
          obtain ⟨other, hmem, hunreadable⟩ := hdispatched
          refine ⟨hsends'.mono hone, fun haccounted =>
            hlast'.failures_eq_nil haccounted ?_⟩
          rw [hprovider]
          exact .inr (.inl ⟨_, hcalls, other, hmem, hunreadable⟩)
        | value _ =>
          obtain ⟨hrecords, answers, hmessages'', hanswers⟩ := hdispatched
          have hanswered'' : Answered state''.messages := by
            rw [hmessages'', append_assoc, singleton_append]
            exact .tools _ _ answers hanswered' hanswers
          have haccurate'' : Accurate state'' world'' := by
            unfold Accurate
            rw [hrecords, hsame.2.1]
            exact haccurate'
          obtain ⟨hrest, hrounded⟩ := ih (modelTurn + 1) state'' world'' hanswered''
            haccurate'' hlast'.explained
          refine ⟨(hsends'.trans hrest).mono ?_, hrounded⟩
          rw [Nat.succ_mul]
          omega

/-! ## A whole run -/

/-- What the repair turn leaves behind. -/
theorem contractRepair_spec (deadline : Option Int) (decode : Content → Decoded Evidence)
    (contractErrors : Evidence → List String) (config : LlmConfig) (previousError : Option String)
    {state : ToolConversation Content ToolResult} {world : World Content ToolResult}
    (hanswered : Answered state.messages) (haccurate : Accurate state world)
    (hexplained : Explained env world) :
    Sends env deadline (turnRequests config) world
        (contractRepair env deadline decode contractErrors config previousError state world).2 ∧
      Sound contractErrors
        (contractRepair env deadline decode contractErrors config previousError state world).1 ∧
      (Accounted env decode (contractRepair env deadline decode contractErrors config previousError
          state world).2 → attemptRecords (contractRepair env deadline decode contractErrors
          config previousError state world).1.modelCalls =
        (contractRepair env deadline decode contractErrors config previousError state
          world).2.failures) := by
  obtain ⟨hrequests, hfailures, hposts⟩ := sameRequests_deadlineExpired env deadline world
  unfold contractRepair
  dsimp only
  split
  · refine ⟨.of_eq hrequests _, sound_of_failure rfl, fun _ => ?_⟩
    rw [hfailures, ← haccurate]
    exact attemptRecords_deadline _ _ _ (by decide)
  · have haccurate' : Accurate { state with messages := state.messages ++ [.user previousError] }
        (deadlineExpired env deadline world).2 := haccurate.trans hfailures.symm
    obtain ⟨hsends, hcalled⟩ := callModelWithRetries_spec deadline config
      (.user previousError hanswered) haccurate' (hexplained.of_eq hfailures hposts)
      (state.modelCalls.length + 1)
    have hsends := hsends.of_requests hrequests
    generalize callModelWithRetries env deadline config _ _ _ = call at *
    obtain ⟨outcome, state', world'⟩ := call
    cases outcome with
    | callError record => exact ⟨hsends, sound_of_failure rfl, fun _ => hcalled⟩
    | raised =>
      obtain ⟨hstate, ⟨lost, hlost⟩, n, hprovider, hlast⟩ := hcalled
      refine ⟨hsends, sound_of_failure rfl, fun haccounted => ?_⟩
      have hnone : world'.failures = [] :=
        hlast.failures_eq_nil haccounted (unexpected_of_raised hprovider)
      have hbefore : world.failures = [] := by
        rw [← hfailures]
        exact (append_eq_nil_iff.mp (hlost.symm.trans hnone)).1
      exact (congrArg (fun s => attemptRecords (ToolConversation.modelCalls s)) hstate).trans
        (haccurate.trans (hbefore.trans hnone.symm))
    | returned response record =>
      obtain ⟨-, haccurate'', hsuccess, -⟩ := hcalled
      have hrecorded : attemptRecords (state'.modelCalls ++ [record]) = world'.failures := by
        rw [attemptRecords_append, attemptRecords_success hsuccess, append_nil]
        exact haccurate''
      dsimp only
      split
      · exact ⟨hsends, sound_of_failure rfl, fun _ => hrecorded⟩
      · split
        · next evidence hparse =>
          exact ⟨hsends, sound_successful (contractErrors_of_parse hparse), fun _ => hrecorded⟩
        · exact ⟨hsends, sound_of_failure rfl, fun _ => hrecorded⟩

/-- What every run keeps to. -/
structure KeepsTo (env : Env Content ToolResult) (deadline : Option Int)
    (contractErrors : Evidence → List String) (config : LlmConfig)
    (result : L1EvidenceResult Content Evidence) (world : World Content ToolResult) : Prop where
  bounded : (world.requests.length : Int) ≤
    (max 1 config.maxToolRounds + 1) * (max 0 config.maxRetries + 1)
  inTime : ∀ request ∈ world.requests, InTime env deadline request
  answered : ∀ request ∈ world.requests, Answered request.messages
  sound : Sound contractErrors result

theorem keepsTo_of_sends {deadline : Option Int} {contractErrors : Evidence → List String}
    {config : LlmConfig} {result : L1EvidenceResult Content Evidence}
    {world : World Content ToolResult} {count : Nat}
    (hsends : Sends env deadline count .start world)
    (hcount : count ≤ ((max 1 config.maxToolRounds).toNat + 1) * turnRequests config)
    (hsound : Sound contractErrors result) :
    KeepsTo env deadline contractErrors config result world := by
  obtain ⟨sent, hsent, hlength, hall⟩ := hsends
  have hrequests : world.requests = sent := hsent
  refine ⟨?_, fun request hrequest => (hall request (hrequests ▸ hrequest)).1,
    fun request hrequest => (hall request (hrequests ▸ hrequest)).2, hsound⟩
  have hle : sent.length ≤ ((max 1 config.maxToolRounds).toNat + 1) *
      ((max 0 config.maxRetries).toNat + 1) := Nat.le_trans hlength hcount
  have hrounds : ((max 1 config.maxToolRounds).toNat : Int) = max 1 config.maxToolRounds :=
    Int.toNat_of_nonneg (by omega)
  have hretries : ((max 0 config.maxRetries).toNat : Int) = max 0 config.maxRetries :=
    Int.toNat_of_nonneg (by omega)
  rw [hrequests, ← hrounds, ← hretries]
  exact_mod_cast hle

/-- Every run is bounded, in time, answered and sound; and its result has every failed attempt
once, when nothing but a failure with a record is raised after an attempt has failed. -/
theorem extractEvidence_faithful (env : Env Content ToolResult) (deadline : Option Int)
    (decode : Content → Decoded Evidence) (contractErrors : Evidence → List String)
    (config : LlmConfig) :
    KeepsTo env deadline contractErrors config
        (extractEvidence env deadline decode contractErrors config).1
        (extractEvidence env deadline decode contractErrors config).2 ∧
      (Accounted env decode (extractEvidence env deadline decode contractErrors config).2 →
        attemptRecords (extractEvidence env deadline decode contractErrors config).1.modelCalls =
          (extractEvidence env deadline decode contractErrors config).2.failures) := by
  have hstart : @Answered Content ToolResult [.system, .user none] :=
    .user none (.system .nil)
  obtain ⟨hsends, hrounded⟩ := @toolRounds_spec Content ToolResult Evidence env deadline decode
    contractErrors config (max 1 config.maxToolRounds).toNat 1 .start .start hstart rfl
    fun hne => absurd rfl hne
  unfold extractEvidence
  generalize toolRounds env deadline decode contractErrors config _ 1 .start .start = rounds at *
  obtain ⟨part, state, world⟩ := rounds
  have hcount : (max 1 config.maxToolRounds).toNat * turnRequests config ≤
      ((max 1 config.maxToolRounds).toNat + 1) * turnRequests config :=
    Nat.mul_le_mul_right _ (Nat.le_succ _)
  cases part with
  | result result =>
    exact ⟨keepsTo_of_sends hsends hcount hrounded.1, fun _ => hrounded.2⟩
  | raised =>
    exact ⟨keepsTo_of_sends hsends hcount (sound_of_failure rfl),
      fun haccounted => (hrounded haccounted).symm⟩
  | value previousError =>
    obtain ⟨haccurate, hanswered, hexplained⟩ := hrounded
    obtain ⟨hrepair, hsound, hrecords⟩ := contractRepair_spec deadline decode contractErrors
      config previousError hanswered haccurate hexplained
    have hturns : (max 1 config.maxToolRounds).toNat * turnRequests config +
        turnRequests config ≤
          ((max 1 config.maxToolRounds).toNat + 1) * turnRequests config :=
      Nat.le_of_eq (Nat.succ_mul _ _).symm
    exact ⟨keepsTo_of_sends (hsends.trans hrepair) hturns hsound, hrecords⟩

/-- A server error first, then the answer. -/
def afterServerError (answer : ProviderOutcome Unit) : Env Unit Unit where
  clock := fun _ => 0
  provider := fun n => if n = 0 then .failure ⟨"http_error", some 503, true, false⟩ else answer
  tools := fun _ => ()

def oneRetry : LlmConfig := ⟨1, 1, 0, []⟩

/-- A server error, and then evidence. -/
theorem extractEvidence_faithful_retried :
    attemptRecords (extractEvidence (afterServerError (.payload (some ⟨none, (), some []⟩))) none
        (fun _ => .evidence ()) (fun _ => []) oneRetry).1.modelCalls =
      (extractEvidence (afterServerError (.payload (some ⟨none, (), some []⟩))) none
        (fun _ => .evidence ()) (fun _ => []) oneRetry).2.failures := by
  refine (extractEvidence_faithful (afterServerError (.payload (some ⟨none, (), some []⟩))) none
    (fun _ => Decoded.evidence ()) (fun _ => []) oneRetry).2 fun n _ hunexpected => ?_
  exfalso
  unfold afterServerError at hunexpected
  dsimp only at hunexpected
  split at hunexpected
  · exact hunexpected
  · rcases hunexpected with h | ⟨calls, hcalls, call, hmem, -⟩ | ⟨-, -, error, h⟩
    · cases h
    · cases hcalls
      exact not_mem_nil hmem
    · cases h

/-- A server error, and then an answer that is no object: the record of the error is lost. -/
theorem not_accounted_listPayload :
    ¬ ∀ (env : Env Unit Unit) (deadline : Option Int) (decode : Unit → Decoded Unit)
        (contractErrors : Unit → List String) (config : LlmConfig),
      KeepsTo env deadline contractErrors config
          (extractEvidence env deadline decode contractErrors config).1
          (extractEvidence env deadline decode contractErrors config).2 ∧
        attemptRecords (extractEvidence env deadline decode contractErrors config).1.modelCalls =
          (extractEvidence env deadline decode contractErrors config).2.failures := by
  intro h
  have hlost := (h (afterServerError (.payload none)) none (fun _ => .evidence ()) (fun _ => [])
    oneRetry).2
  have hrecords : attemptRecords (extractEvidence (afterServerError (.payload none)) none
      (fun _ => Decoded.evidence ()) (fun _ => []) oneRetry).1.modelCalls = [] := by decide +kernel
  have hfailures : (extractEvidence (afterServerError (.payload none)) none
      (fun _ => Decoded.evidence ()) (fun _ => []) oneRetry).2.failures.length = 1 :=
        by decide +kernel
  rw [← hlost, hrecords] at hfailures
  cases hfailures

end ResiliencyExt.Attribution.RestartAgent.ToolLoop
