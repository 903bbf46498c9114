import ResiliencyExt.Attribution.RequestCoalescer

set_option autoImplicit false

/-!
# Cache hits are fresh

The metadata of a cache entry says what the file was when the compute started, and a size
is only kept for a result that is no timeout.  After the grace period a hit on an entry with
metadata is therefore fresh.  An entry without metadata, whose file was missing when the
compute started, is a hit for good.
-/

namespace ResiliencyExt.Attribution

open Foundation

variable {Key Value Exc : Type}

/-- The metadata is what the compute started with, and a timeout has no size. -/
structure CacheEntry.Honest (entry : CacheEntry Value) : Prop where
  mtime : entry.fileMtime = entry.startedWith.map FileMetadata.mtime
  size : ∀ size, entry.fileSize = some size →
    entry.startedWith.map FileMetadata.size = some size ∧ entry.result ≠ .timedOut

theorem Outcome.honest_entry {outcome : Outcome Value Exc} {now : Nat}
    {fileMetadata : Option FileMetadata} {entry : CacheEntry Value}
    (h : outcome.entry now fileMetadata = some entry) : entry.Honest := by
  cases outcome with
  | value v =>
    cases h
    exact ⟨rfl, fun size hsize => ⟨hsize, nofun⟩⟩
  | timedOut =>
    cases h
    exact ⟨rfl, nofun⟩
  | cancelled => cases h
  | raised e => cases h

/-- An entry with both parts of the metadata. -/
theorem CacheEntry.Honest.startedWith_eq {entry : CacheEntry Value} (h : entry.Honest)
    {mtime size : Nat} (hmtime : entry.fileMtime = some mtime)
    (hsize : entry.fileSize = some size) : entry.startedWith = some ⟨mtime, size⟩ := by
  obtain ⟨hstarted, _⟩ := h.size size hsize
  have hmtime' := h.mtime.symm.trans hmtime
  cases hwith : entry.startedWith with
  | none =>
    rw [hwith] at hstarted
    cases hstarted
  | some fileMetadata =>
    rw [hwith] at hstarted hmtime'
    obtain ⟨_, _⟩ := fileMetadata
    cases hstarted
    cases hmtime'
    rfl

variable [DecidableEq Key]

/-! ## Caches of honest entries -/

def HonestCache (cache : Dict Key (CacheEntry Value)) : Prop :=
  ∀ key entry, cache.get? key = some entry → entry.Honest

namespace HonestCache

variable {cache : Dict Key (CacheEntry Value)}

theorem empty : HonestCache (.empty : Dict Key (CacheEntry Value)) :=
  nofun

theorem erase (h : HonestCache cache) (key : Key) : HonestCache (cache.erase key) :=
  fun k entry hget => h k entry (Dict.get?_of_get?_erase hget)

theorem foldl_erase (h : HonestCache cache) (keys : List Key) :
    HonestCache (keys.foldl Dict.erase cache) := by
  induction keys generalizing cache with
  | nil => exact h
  | cons key keys ih => exact ih (h.erase key)

theorem set (h : HonestCache cache) (key : Key) {entry : CacheEntry Value}
    (hentry : entry.Honest) : HonestCache (cache.set key entry) := by
  intro k found hget
  rw [Dict.get?_set] at hget
  split at hget
  · cases hget
    exact hentry
  · exact h k found hget

end HonestCache

namespace CoalescerState

variable {cfg : CoalescerConfig} {s t : CoalescerState Key Value Exc}

@[simp]
theorem deleteStuck_cache (s : CoalescerState Key Value Exc) (key : Key) :
    (s.deleteStuck key).cache = s.cache := by
  unfold deleteStuck
  split <;> rfl

theorem foldl_deleteStuck_cache (keys : List Key) (s : CoalescerState Key Value Exc) :
    (keys.foldl deleteStuck s).cache = s.cache := by
  induction keys generalizing s with
  | nil => rfl
  | cons key keys ih => exact (ih _).trans (deleteStuck_cache s key)

@[simp]
theorem deleteStuck_persisted (s : CoalescerState Key Value Exc) (key : Key) :
    (s.deleteStuck key).persisted = s.persisted := by
  unfold deleteStuck
  split <;> rfl

theorem foldl_deleteStuck_persisted (keys : List Key) (s : CoalescerState Key Value Exc) :
    (keys.foldl deleteStuck s).persisted = s.persisted := by
  induction keys generalizing s with
  | nil => rfl
  | cons key keys ih => exact (ih _).trans (deleteStuck_persisted s key)

theorem honest_validCachedResult (h : HonestCache s.cache) (key : Key) :
    HonestCache (s.validCachedResult cfg key).1 := by
  unfold validCachedResult
  split
  · exact h
  · split
    · exact h
    · split
      · split
        · exact h
        · exact h.erase key
      · exact h.erase key
      · exact h

/-- All entries, here and exported, are honest. -/
structure HonestState (s : CoalescerState Key Value Exc) : Prop where
  cache : HonestCache s.cache
  persisted : ∀ e ∈ s.persisted, e.2.Honest

theorem honest_look (h : s.HonestState) (task : Nat) (key : Key) :
    (s.look cfg task key).HonestState := by
  have hcache : HonestCache (s.validCachedResult cfg key).1 :=
    honest_validCachedResult h.cache key
  unfold look
  simp only
  split
  · exact ⟨hcache, h.persisted⟩
  · exact ⟨hcache, h.persisted⟩
  · exact ⟨hcache, h.persisted⟩

theorem honest_importEntry (s : CoalescerState Key Value Exc) (readable : Key → Bool)
    {cache : Dict Key (CacheEntry Value)} (h : HonestCache cache)
    {e : Key × CacheEntry Value} (he : e.2.Honest) :
    HonestCache (s.importEntry cfg readable cache e) := by
  unfold importEntry
  split
  · split
    · exact h
    · split
      · exact h.set _ ⟨he.mtime, he.size⟩
      · exact h
  · exact h

theorem honest_foldl_importEntry (s : CoalescerState Key Value Exc) (readable : Key → Bool)
    {entries : List (Key × CacheEntry Value)} (hentries : ∀ e ∈ entries, e.2.Honest)
    {cache : Dict Key (CacheEntry Value)} (h : HonestCache cache) :
    HonestCache (entries.foldl (s.importEntry cfg readable) cache) := by
  induction entries generalizing cache with
  | nil => exact h
  | cons e rest ih =>
    exact ih (fun e he => hentries e (List.mem_cons_of_mem _ he))
      (honest_importEntry s readable h (hentries e List.mem_cons_self))

theorem HonestState.runTask (h : s.HonestState) {task : Nat}
    (hrun : s.runTask cfg task = some t) : t.HonestState := by
  unfold CoalescerState.runTask at hrun
  split at hrun
  · split at hrun
    · cases hrun
      exact ⟨h.cache, h.persisted⟩
    · cases hrun
      exact ⟨h.cache, h.persisted⟩
  · rename_i key expired _
    cases hrun
    refine ⟨?_, ?_⟩
    · change HonestCache (expired.stuck.foldl deleteStuck _).cache
      rw [foldl_deleteStuck_cache]
      exact h.cache.foldl_erase _
    · change ∀ e ∈ (expired.stuck.foldl deleteStuck _).persisted, _
      rw [foldl_deleteStuck_persisted]
      exact h.persisted
  · cases hrun
    exact honest_look h task _
  · cases hrun
    exact ⟨h.cache, h.persisted⟩
  · cases hrun
    refine ⟨?_, h.persisted⟩
    simp only [store, goTo]
    split
    · rename_i hentry
      exact h.cache.set _ (Outcome.honest_entry hentry)
    · exact h.cache
  · obtain ⟨answer, _, rfl⟩ := Option.map_eq_some_iff.mp hrun
    exact ⟨h.cache, h.persisted⟩
  · cases hrun

theorem HonestState.cancelTask (h : s.HonestState) {task : Nat}
    (hcancel : s.cancelTask task = some t) : t.HonestState := by
  have hgoTo : ∀ place, (s.goTo task place).HonestState :=
    fun _ => ⟨h.cache, h.persisted⟩
  unfold CoalescerState.cancelTask at hcancel
  split at hcancel
  case h_8 =>
    split at hcancel
    · cases hcancel
      exact hgoTo _
    · cases hcancel
      exact hgoTo _
    · cases hcancel
      exact hgoTo _
  case h_9 => cases hcancel
  case h_5 =>
    cases hcancel
    exact h
  all_goals
    cases hcancel
    exact hgoTo _

theorem HonestState.step {event : CoalescerEvent Key Value Exc} (h : s.HonestState)
    (hstep : s.step cfg event = some t) : t.HonestState := by
  cases event with
  | request task key =>
    simp only [CoalescerState.step] at hstep
    split at hstep
    · cases hstep
      exact ⟨h.cache, h.persisted⟩
    · cases hstep
  | run task => exact h.runTask hstep
  | computeEnds task outcome =>
    simp only [CoalescerState.step] at hstep
    split at hstep
    · cases hstep
      exact ⟨h.cache, h.persisted⟩
    · cases hstep
  | cancel task => exact h.cancelTask hstep
  | waitTimeout task =>
    simp only [CoalescerState.step] at hstep
    split at hstep
    · split at hstep
      · cases hstep
        exact ⟨h.cache, h.persisted⟩
      · cases hstep
    · cases hstep
  | peek key =>
    cases hstep
    exact ⟨honest_validCachedResult h.cache key, h.persisted⟩
  | exportCache =>
    cases hstep
    exact ⟨h.cache, fun e he => h.cache e.1 e.2 (Dict.get?_eq_some_of_mem he)⟩
  | importCache readable =>
    cases hstep
    exact ⟨honest_foldl_importEntry s readable h.persisted h.cache, h.persisted⟩
  | restart now =>
    cases hstep
    exact ⟨.empty, h.persisted⟩
  | fileChange key fileMetadata | clock elapsed timestamp =>
    cases hstep
    exact ⟨h.cache, h.persisted⟩

/-! ## Hits -/

/-- The hit is younger than the grace period, or the result of a compute that started with the
file as it is now. -/
def FreshHit (cfg : CoalescerConfig) (s : CoalescerState Key Value Exc) (key : Key)
    (entry : CacheEntry Value) : Prop :=
  s.now < entry.cachedAt + cfg.gracePeriod ∨
    (entry.result ≠ .timedOut ∧ entry.startedWith = s.files key)

theorem honest_of_reachable (hs : (system cfg).Reachable (fun _ _ => True) s) :
    s.HonestState := by
  refine System.Reachable.invariant (P := HonestState) ?_ (fun _ _ _ h _ => h.step) hs
  rintro s ⟨hcache, _, _, _, _, hpersisted⟩
  exact ⟨hcache ▸ .empty, hpersisted ▸ nofun⟩

/-- A hit after the grace period on an entry with metadata is of a compute that started with
the file as it is. -/
theorem startedWith_of_hit (h : HonestCache s.cache) {key : Key} {entry : CacheEntry Value}
    (hhit : (s.validCachedResult cfg key).2 = some entry)
    (hlate : ¬ s.now < entry.cachedAt + cfg.gracePeriod)
    (hmetadata : entry.fileMtime ≠ none) :
    entry.result ≠ .timedOut ∧ entry.startedWith = s.files key := by
  unfold validCachedResult at hhit
  split at hhit
  · cases hhit
  · rename_i found hfound
    split at hhit
    · rename_i hearly
      cases hhit
      exact absurd hearly hlate
    · split at hhit
      · rename_i mtime size hmtime hsize
        split at hhit
        · rename_i hfile
          cases hhit
          have hhonest := h key entry hfound
          exact ⟨(hhonest.size size hsize).2,
            (hhonest.startedWith_eq hmtime hsize).trans hfile.symm⟩
        · cases hhit
      · cases hhit
      · rename_i hnone
        cases hhit
        exact absurd hnone hmetadata

theorem get?_of_hit {key : Key} {entry : CacheEntry Value}
    (hhit : (s.validCachedResult cfg key).2 = some entry) :
    s.cache.get? key = some entry := by
  unfold validCachedResult at hhit
  split at hhit
  · cases hhit
  · rename_i hfound
    split at hhit
    · exact hfound.trans hhit
    · split at hhit
      · split at hhit
        · exact hfound.trans hhit
        · cases hhit
      · cases hhit
      · exact hfound.trans hhit

/-- A hit is fresh unless it comes late to an entry without metadata that is a timeout, or
whose file has turned up since. -/
theorem fresh_hit_iff (hs : (system cfg).Reachable (fun _ _ => True) s) {key : Key}
    {entry : CacheEntry Value} (hhit : (s.validCachedResult cfg key).2 = some entry) :
    s.FreshHit cfg key entry ↔
      s.now < entry.cachedAt + cfg.gracePeriod ∨ entry.fileMtime ≠ none ∨
        (entry.result ≠ .timedOut ∧ s.files key = none) := by
  have hhonest := (honest_of_reachable hs).cache
  by_cases hearly : s.now < entry.cachedAt + cfg.gracePeriod
  · exact ⟨fun _ => .inl hearly, fun _ => .inl hearly⟩
  · by_cases hmetadata : entry.fileMtime = none
    · -- The file was missing when the compute started.
      have hstarted : entry.startedWith = none := by
        have hmtime := (hhonest key entry (get?_of_hit hhit)).mtime
        rw [hmetadata] at hmtime
        exact Option.map_eq_none_iff.mp hmtime.symm
      unfold FreshHit
      rw [hstarted]
      constructor
      · rintro (hgrace | ⟨hresult, hfile⟩)
        · exact .inl hgrace
        · exact .inr (.inr ⟨hresult, hfile.symm⟩)
      · rintro (hgrace | hnot | ⟨hresult, hfile⟩)
        · exact .inl hgrace
        · exact absurd hmetadata hnot
        · exact .inr ⟨hresult, hfile.symm⟩
    · exact ⟨fun _ => .inr (.inl hmetadata),
        fun _ => .inr (startedWith_of_hit hhonest hhit hearly hmetadata)⟩

/-! ## Runs -/

/-- A result that is still fresh after the grace period. -/
theorem fresh_hit_iff_late :
    ∃ (s : CoalescerState Nat Nat Nat) (entry : CacheEntry Nat),
      (system smallConfig).Reachable (fun _ _ => True) s ∧
      (s.validCachedResult smallConfig 0).2 = some entry ∧ entry.cachedAt + 10 < s.now ∧
      (FreshHit smallConfig s 0 entry ↔
        s.now < entry.cachedAt + smallConfig.gracePeriod ∨ entry.fileMtime ≠ none ∨
          (entry.result ≠ .timedOut ∧ s.files 0 = none)) := by
  have hrun : ((system smallConfig).execute (fun _ _ => True) newProcess
      (.fileChange 0 (some ⟨1, 2⟩) :: requestFirst 0 ++
        [.computeEnds 0 (.value 7), .run 0, .clock 20 0])).any
        (fun s => decide ((s.validCachedResult smallConfig 0).2 =
          some ⟨.value 7, 0, some 1, some 2, some ⟨1, 2⟩⟩) && decide (10 < s.now)) = true := by
    decide +kernel
  obtain ⟨s, hs, htest⟩ := System.exists_reachable_of_execute init_newProcess hrun
  obtain ⟨hhit, hlate⟩ := (Bool.and_eq_true _ _).mp htest
  exact ⟨s, _, hs, of_decide_eq_true hhit, of_decide_eq_true hlate,
    fresh_hit_iff hs (of_decide_eq_true hhit)⟩

/-- The timeout of a compute that found no file. -/
theorem timeout_served_after_grace :
    ∃ (s : CoalescerState Nat Nat Nat) (entry : CacheEntry Nat),
      (system smallConfig).Reachable (fun _ _ => True) s ∧
      (s.validCachedResult smallConfig 0).2 = some entry ∧ entry.result = .timedOut ∧
      ¬ FreshHit smallConfig s 0 entry := by
  have hrun : ((system smallConfig).execute (fun _ _ => True) newProcess
      (requestFirst 0 ++ [.computeEnds 0 .timedOut, .run 0, .clock 10 0])).any
        (fun s => decide ((s.validCachedResult smallConfig 0).2 =
          some ⟨.timedOut, 0, none, none, none⟩) && decide (s.now = 10)) = true := by
    decide +kernel
  obtain ⟨s, hs, htest⟩ := System.exists_reachable_of_execute init_newProcess hrun
  obtain ⟨hhit, hnow⟩ := (Bool.and_eq_true _ _).mp htest
  refine ⟨s, _, hs, of_decide_eq_true hhit, rfl, ?_⟩
  rintro (hgrace | ⟨hresult, _⟩)
  · rw [of_decide_eq_true hnow] at hgrace
    exact absurd hgrace (by decide)
  · exact hresult rfl

end CoalescerState

end ResiliencyExt.Attribution
