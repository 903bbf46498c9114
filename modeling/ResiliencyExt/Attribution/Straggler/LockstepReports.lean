import ResiliencyExt.Attribution.Straggler.Reporting

set_option autoImplicit false

/-!
# Straggler detection: reports in lockstep

`Detector.generate_report_if_interval_elapsed` on all ranks.  What a rank has measured
decides neither which operations it calls nor the lengths of its tensors: these follow
from the configuration, from the name mapper and from the iteration, which are the same
on all ranks.
-/

namespace ResiliencyExt.Attribution.Straggler

open Foundation List

/-! ## Computations that do not raise -/

/-- A fold of steps that succeed under an invariant of the items so far. -/
theorem exists_foldlM_ok {α β : Type} (f : β → α → Except Exn β) (Inv : List α → β → Prop)
    {items : List α} {b : β} (hstart : Inv [] b) (hstep : ∀ before b, Inv before b →
      ∀ a ∈ items, ∃ b', f b a = .ok b' ∧ Inv (before ++ [a]) b') :
    ∃ b', items.foldlM f b = .ok b' ∧ Inv items b' := by
  have hrun : ∀ (items before : List α) (b : β), Inv before b →
      (∀ before b, Inv before b → ∀ a ∈ items, ∃ b', f b a = .ok b' ∧ Inv (before ++ [a]) b') →
        ∃ b', items.foldlM f b = .ok b' ∧ Inv (before ++ items) b' := by
    intro items
    induction items with
    | nil =>
      intro before b h _
      exact ⟨b, rfl, (append_nil before).symm ▸ h⟩
    | cons a rest ih =>
      intro before b h hstep
      obtain ⟨b', hb', h'⟩ := hstep before b h a mem_cons_self
      obtain ⟨last, hlast, hlast'⟩ := ih _ _ h' fun before c hc x hx =>
        hstep before c hc x (mem_cons_of_mem a hx)
      refine ⟨last, ?_, by rwa [append_cons]⟩
      rw [foldlM_cons, hb']
      exact hlast
  exact hrun items [] b hstart hstep

/-- A fold of steps that succeed. -/
theorem foldlM_total {α β : Type} (f : β → α → Except Exn β) {items : List α}
    (hstep : ∀ b, ∀ a ∈ items, ∃ b', f b a = .ok b') (b : β) :
    ∃ b', items.foldlM f b = .ok b' := by
  obtain ⟨b', hok, -⟩ := exists_foldlM_ok f (fun _ _ => True) (b := b) trivial
    fun _ b _ a ha => (hstep b a ha).imp fun _ h => ⟨h, trivial⟩
  exact ⟨b', hok⟩

/-- The scores of names that all have references. -/
theorem exists_computeScores_ok {kernels sections : Summaries}
    {kernelTimes sectionTimes : String → Option Score}
    (hkernels : ∀ name ∈ kernels.keys, (kernelTimes name).isSome)
    (hsections : ∀ name ∈ sections.keys, (sectionTimes name).isSome) :
    ∃ scores, computeScores kernels sections kernelTimes sectionTimes = .ok scores := by
  have hadd : ∀ sums : KernelSums, ∀ e ∈ kernels.entries,
      ∃ sums', addKernel kernelTimes sums e = .ok sums' := by
    intro sums e he
    obtain ⟨time, htime⟩ := Option.isSome_iff_exists.mp (hkernels e.1 (mem_map_of_mem he))
    rw [addKernel, htime]
    cases time with
    | none => exact ⟨_, rfl⟩
    | some time => exact ⟨_, rfl⟩
  have hscore : ∀ scores : Dict String Score, ∀ e ∈ sections.entries,
      ∃ scores', sectionScore sectionTimes scores e = .ok scores' := by
    intro scores e he
    obtain ⟨time, htime⟩ := Option.isSome_iff_exists.mp (hsections e.1 (mem_map_of_mem he))
    rw [sectionScore, htime]
    exact ⟨_, rfl⟩
  obtain ⟨sums, hsums⟩ := foldlM_total _ hadd ⟨0, 0, 0⟩
  obtain ⟨scores, hscores⟩ := foldlM_total _ hscore .empty
  rw [computeScores, computeGpuPerfScore, hsums, computeSectionsPerfScores, hscores]
  exact ⟨_, rfl⟩

/-- The best times of a rank are those of all its names. -/
theorem isSome_updateMinTimes (times : Dict String ℚ) (summaries : Summaries) :
    ∀ name ∈ summaries.keys, ((updateMinTimes times summaries).get? name).isSome := by
  have hkeys : ∀ (entries : List (String × Summary)) (value : Dict String ℚ → String × Summary → ℚ)
      (times : Dict String ℚ) (name : String), name ∈ times.keys ∨ name ∈ entries.map Prod.fst →
        name ∈ (entries.foldl (fun times e => times.set e.1 (value times e)) times).keys := by
    intro entries value
    induction entries with
    | nil => exact fun times name h => h.resolve_right not_mem_nil
    | cons e rest ih =>
      intro times name h
      refine ih _ name ?_
      rw [Dict.mem_keys_set]
      rcases h with hold | hnew
      · exact .inl (.inr hold)
      · rcases mem_cons.mp hnew with rfl | hrest
        · exact .inl (.inl rfl)
        · exact .inr hrest
  intro name hname
  exact Dict.get?_isSome_iff.mpr (hkeys summaries.entries _ times name (.inr hname))

namespace IdMap

theorem Consecutive.getName {m : IdMap} (h : m.Consecutive) {id : Nat} (hid : id < m.counter) :
    ∃ name, m.getName id = .ok name ∧ m.nameToId.get? name = some id := by
  obtain ⟨name, hname⟩ := (h.ids id).mpr hid
  refine ⟨name, ?_, hname⟩
  rw [IdMap.getName, (h.inverse name id).mp hname]

theorem exists_getId {m : IdMap} {name : String} (h : name ∈ m.nameToId.keys) :
    ∃ id, m.getId name = .ok id := by
  obtain ⟨id, hid⟩ := Dict.exists_get?_of_mem h
  exact ⟨id, by rw [IdMap.getId, hid]⟩

end IdMap

/-- The times of names that have ids go into the tensor, which keeps its length. -/
theorem exists_packTimes_ok {m : IdMap} {summaries : Summaries}
    (h : ∀ name ∈ summaries.keys, name ∈ m.nameToId.keys) (offset : Nat) (tensor : List ℚ) :
    ∃ tensor', packTimes m offset summaries tensor = .ok tensor' ∧
      tensor'.length = tensor.length := by
  refine exists_foldlM_ok _ (fun _ (packed : List ℚ) => packed.length = tensor.length) rfl ?_
  intro _ packed hlength e he
  obtain ⟨id, hid⟩ := IdMap.exists_getId (h e.1 (mem_map_of_mem he))
  refine ⟨packed.set (offset + id) e.2.med, ?_, length_set.trans hlength⟩
  rw [packTime, hid]
  rfl

/-- The times of all names come out of the tensor. -/
theorem exists_unpackTimes_ok {m : IdMap} (h : m.Consecutive) (offset : Nat) (tensor : List ℚ) :
    ∃ times, unpackTimes m offset tensor = .ok times ∧
      ∀ name ∈ m.nameToId.keys, (times.get? name).isSome := by
  let unpacked (ids : List Nat) (times : Dict String Score) : Prop :=
    ∀ id ∈ ids, ∀ name, m.nameToId.get? name = some id → (times.get? name).isSome
  have hstep : ∀ before times, unpacked before times → ∀ id ∈ List.range m.counter,
      ∃ times', unpackTime m offset tensor times id = .ok times' ∧
        unpacked (before ++ [id]) times' := by
    intro before times hbefore id hid
    obtain ⟨name, hname, hget⟩ := h.getName (mem_range.mp hid)
    refine ⟨_, by rw [unpackTime, hname]; rfl, ?_⟩
    intro other hother name' hname'
    rw [Dict.get?_set]
    by_cases hsame : name' = name
    · rw [if_pos hsame]
      rfl
    · rw [if_neg hsame]
      refine hbefore other ?_ name' hname'
      refine (mem_append.mp hother).resolve_right fun hlast => hsame ?_
      obtain rfl := mem_singleton.mp hlast
      have hinverse := (h.inverse name' other).mp hname'
      rw [(h.inverse name other).mp hget] at hinverse
      exact (Option.some.inj hinverse).symm
  obtain ⟨times, htimes, hunpacked⟩ := exists_foldlM_ok _ unpacked
    (fun _ hid => absurd hid not_mem_nil) hstep
  refine ⟨times, htimes, fun name hname => ?_⟩
  obtain ⟨id, hid⟩ := Dict.exists_get?_of_mem hname
  exact hunpacked id (mem_range.mpr ((h.ids id).mp ⟨name, hid⟩)) name hid

/-- The scores go into a tensor with a length that the number of sections gives. -/
theorem exists_getTensorFromScores_ok {m : IdMap} (h : m.Consecutive)
    (individual relative : LocalScores) : ∃ tensor,
      getTensorFromScores m individual relative = .ok tensor ∧
        tensor.length = 2 + 2 * m.counter := by
  refine exists_foldlM_ok _ (fun _ (packed : List Score) => packed.length = 2 + 2 * m.counter)
    ?_ ?_
  · rw [length_set, length_set, length_replicate]
  · intro _ packed hlength id hid
    obtain ⟨name, hname, -⟩ := h.getName (mem_range.mp hid)
    refine ⟨_, by rw [packScores, hname]; rfl, ?_⟩
    rw [length_set, length_set]
    exact hlength

/-- The scores come out of a tensor of that length. -/
theorem exists_getScoresFromTensor_ok {m : IdMap} (h : m.Consecutive)
    {tensor : List Score} (hlength : tensor.length = 2 + 2 * m.counter) :
    ∃ both, getScoresFromTensor m tensor = .ok both := by
  have hsections : (tensor.length - 2) / 2 = m.counter := by omega
  have hstep : ∀ scores, ∀ id ∈ List.range m.counter,
      ∃ scores', unpackScores m m.counter tensor scores id = .ok scores' := by
    intro scores id hid
    obtain ⟨name, hname, -⟩ := h.getName (mem_range.mp hid)
    exact ⟨_, by rw [unpackScores, hname]; rfl⟩
  obtain ⟨sections, hok⟩ := foldlM_total _ hstep (.empty, .empty)
  rw [getScoresFromTensor]
  simp only [hsections]
  rw [if_neg (not_not.mpr rfl), hok]
  exact ⟨_, rfl⟩

namespace ReportGenerator

/-! ## The stages in lockstep -/

/-- What the report generators of all ranks have in common. -/
structure Common where
  isComputingRelScores : Bool
  isComputingIndivScores : Bool
  gatherOnRank0 : Bool
  nameMapper : NameMapper
  /-- `not self.rank_to_node` -/
  toLocate : Bool

def common (g : ReportGenerator) : Common where
  isComputingRelScores := g.isComputingRelScores
  isComputingIndivScores := g.isComputingIndivScores
  gatherOnRank0 := g.gatherOnRank0
  nameMapper := g.nameMapper
  toLocate := g.rankToNode.entries.isEmpty

variable {n : Nat} {gs : Fin n → ReportGenerator} {c : Common}

theorem maybeGatherRankToNode_lockstep (hcommon : ∀ r, (gs r).common = c) :
    ∃ trace gs' toLocate, Lockstep (processGroup n)
      (fun r => (gs r).maybeGatherRankToNode n r) trace gs' ∧
        ∀ r, (gs' r).common = { c with toLocate := toLocate } := by
  have hempty : ∀ r, (gs r).rankToNode.entries.isEmpty = c.toLocate := fun r =>
    congrArg Common.toLocate (hcommon r)
  have hgather : ∀ r, (gs r).gatherOnRank0 = c.gatherOnRank0 := fun r =>
    congrArg Common.gatherOnRank0 (hcommon r)
  have hlocated : ∀ (r : Fin n) nodes, ({ gs r with rankToNode := nodes }).common =
      { c with toLocate := nodes.entries.isEmpty } := by
    intro r nodes
    rw [← hcommon r]
    rfl
  by_cases htoLocate : c.toLocate = true
  · by_cases hgatherOnRank0 : c.gatherOnRank0 = true
    · obtain ⟨trace, hobjects⟩ :=
        allGatherObject_lockstep fun r : Fin n => .node r (gs r).nodeName
      have hprograms : (fun r => (gs r).maybeGatherRankToNode n r) = fun r : Fin n =>
          allGatherObject n (.node r (gs r).nodeName) >>= fun gathered =>
            pure { gs r with rankToNode := gathered.foldl addNode .empty } := by
        funext r
        rw [maybeGatherRankToNode, if_pos ((hempty r).trans htoLocate),
          if_pos ((hgather r).trans hgatherOnRank0)]
      rw [hprograms]
      exact ⟨_, _, _, hobjects.bind (.pure _), fun r => hlocated r _⟩
    · refine ⟨[], fun r => { gs r with
        rankToNode := (gs r).rankToNode.set r (gs r).nodeName }, false, .done fun r => ?_,
        fun r => (hlocated r _).trans (congrArg (Common.mk _ _ _ _) ?_)⟩
      · rw [maybeGatherRankToNode, if_pos ((hempty r).trans htoLocate),
          if_neg (hgather r ▸ hgatherOnRank0)]
        rfl
      · refine isEmpty_eq_false_iff.mpr fun hnil => ?_
        have hmem : r.val ∈ ((gs r).rankToNode.set r (gs r).nodeName).keys :=
          Dict.mem_keys_set.mpr (.inl rfl)
        rw [Dict.keys, hnil] at hmem
        exact not_mem_nil hmem
  · refine ⟨[], gs, c.toLocate, .done fun r => ?_, hcommon⟩
    rw [maybeGatherRankToNode, if_neg (hempty r ▸ htoLocate)]
    rfl

/-- After this stage the ids that the relative scores need are there. -/
theorem mapNames_lockstep (hcommon : ∀ r, (gs r).common = c)
    (hconsecutive : c.nameMapper.Consecutive) (kernels sections : Fin n → Summaries) :
    ∃ trace gs' nameMapper, Lockstep (processGroup n)
      (fun r => (gs r).mapNames n (kernels r) (sections r)) trace gs' ∧
        (∀ r, (gs' r).common = { c with nameMapper := nameMapper }) ∧ nameMapper.Consecutive ∧
          (c.isComputingRelScores = true →
            ∀ r, nameMapper.Covers ⟨(kernels r).keys, (sections r).keys⟩) := by
  have hrel : ∀ r, (gs r).isComputingRelScores = c.isComputingRelScores := fun r =>
    congrArg Common.isComputingRelScores (hcommon r)
  have hgather : ∀ r, (gs r).gatherOnRank0 = c.gatherOnRank0 := fun r =>
    congrArg Common.gatherOnRank0 (hcommon r)
  have hmapper : ∀ r, (gs r).nameMapper = c.nameMapper := fun r =>
    congrArg Common.nameMapper (hcommon r)
  by_cases hneed : (c.isComputingRelScores || c.gatherOnRank0) = true
  · obtain ⟨trace, nameMapper, hassign, hconsecutive', -, hcovers⟩ :=
      NameMapper.gatherAndAssignIds_lockstep c.nameMapper fun r =>
        ⟨(kernels r).keys, (sections r).keys⟩
    refine ⟨trace ++ [], fun r => { gs r with nameMapper := nameMapper }, nameMapper, ?_,
      fun r => by rw [← hcommon r]; rfl, hconsecutive' hconsecutive, fun _ => hcovers⟩
    have hprograms : (fun r => (gs r).mapNames n (kernels r) (sections r)) = fun r =>
        c.nameMapper.gatherAndAssignIds n ⟨(kernels r).keys, (sections r).keys⟩ >>=
          fun nameMapper => pure { gs r with nameMapper := nameMapper } := by
      funext r
      have hneed' : ((gs r).isComputingRelScores || (gs r).gatherOnRank0) = true := by
        rw [hrel, hgather, hneed]
      rw [mapNames, if_pos hneed', hmapper]
    rw [hprograms]
    exact hassign.bind (.done fun r => rfl)
  · refine ⟨[], gs, c.nameMapper, .done fun r => ?_, hcommon, hconsecutive, fun hrel' => ?_⟩
    · have hneed' : ¬ ((gs r).isComputingRelScores || (gs r).gatherOnRank0) = true := by
        rw [hrel, hgather]
        exact hneed
      rw [mapNames, if_neg hneed']
      rfl
    · exact absurd (Bool.or_eq_true_iff.mpr (.inl hrel')) hneed

theorem individualScores_lockstep (hcommon : ∀ r, (gs r).common = c)
    (kernels sections : Fin n → Summaries) :
    ∃ results, Lockstep (processGroup n)
      (fun r => .ofExcept ((gs r).individualScores (kernels r) (sections r))) [] results ∧
        ∀ r, (results r).1.common = c := by
  refine Lockstep.ofExcept (processGroup n)
    (P := fun _ (result : ReportGenerator × LocalScores) => result.1.common = c) fun r => ?_
  by_cases hindiv : (gs r).isComputingIndivScores = true
  · have hbest : ∀ times : Dict String ℚ, ∀ summaries : Summaries, ∀ name ∈ summaries.keys,
        (((updateMinTimes times summaries).get? name).map fun time => some time).isSome :=
      fun times summaries name hname =>
        Option.isSome_map.trans (isSome_updateMinTimes times summaries name hname)
    obtain ⟨scores, hscores⟩ := exists_computeScores_ok
      (hbest (gs r).minLocalKernelTimes (kernels r))
      (hbest (gs r).minLocalSectionTimes (sections r))
    let updated : ReportGenerator := { gs r with
      minLocalKernelTimes := updateMinTimes (gs r).minLocalKernelTimes (kernels r)
      minLocalSectionTimes := updateMinTimes (gs r).minLocalSectionTimes (sections r) }
    refine ⟨(updated, scores), ?_, hcommon r⟩
    rw [individualScores, if_pos hindiv]
    dsimp only
    rw [hscores]
    rfl
  · refine ⟨(gs r, .nan), ?_, hcommon r⟩
    rw [individualScores, if_neg hindiv]
    rfl

theorem allReduceTimes_lockstep {m : NameMapper} (hconsecutive : m.Consecutive)
    {kernels sections : Fin n → Summaries}
    (hcovers : ∀ r, m.Covers ⟨(kernels r).keys, (sections r).keys⟩) :
    ∃ trace minTimes, Lockstep (processGroup n)
      (fun r => allReduceTimes n m (kernels r) (sections r)) trace minTimes ∧
        ∀ r, (∀ name ∈ (kernels r).keys, ((minTimes r).1.get? name).isSome) ∧
          ∀ name ∈ (sections r).keys, ((minTimes r).2.get? name).isSome := by
  let totalLen := m.kernels.counter + m.sections.counter
  obtain ⟨withKernels, hkernels, hkernelsLen⟩ := Lockstep.ofExcept (processGroup n)
    fun r => exists_packTimes_ok (hcovers r).kernels 0 (replicate totalLen (-1))
  obtain ⟨tensors, hsections, hsectionsLen⟩ := Lockstep.ofExcept (processGroup n)
    fun r => exists_packTimes_ok (hcovers r).sections m.kernels.counter (withKernels r)
  have hlength : ∀ r, (tensors r).length = totalLen := fun r =>
    (hsectionsLen r).trans ((hkernelsLen r).trans length_replicate)
  obtain ⟨trace, hreduce⟩ := allReduce_lockstep .min hlength
  obtain ⟨kernelTimes, hkernelTimes, hkernelNames⟩ := Lockstep.ofExcept (processGroup n)
    fun _ => exists_unpackTimes_ok hconsecutive.kernels 0 (reduceTensors .min (ofFn tensors))
  obtain ⟨sectionTimes, hsectionTimes, hsectionNames⟩ :=
    Lockstep.ofExcept (processGroup n) fun _ =>
      exists_unpackTimes_ok hconsecutive.sections m.kernels.counter
        (reduceTensors .min (ofFn tensors))
  refine ⟨_, fun r => (kernelTimes r, sectionTimes r),
    hkernels.bind (hsections.bind (hreduce.bind (hkernelTimes.bind (hsectionTimes.bind
      (.pure _))))), fun r => ⟨fun name hname => ?_, fun name hname => ?_⟩⟩
  · exact hkernelNames r name ((hcovers r).kernels name hname)
  · exact hsectionNames r name ((hcovers r).sections name hname)

section

variable (hcommon : ∀ r, (gs r).common = c) (hconsecutive : c.nameMapper.Consecutive)
include hcommon hconsecutive

theorem relativeScores_lockstep {kernels sections : Fin n → Summaries}
    (hcovers : c.isComputingRelScores = true →
      ∀ r, c.nameMapper.Covers ⟨(kernels r).keys, (sections r).keys⟩) :
    ∃ trace scores, Lockstep (processGroup n)
      (fun r => (gs r).relativeScores n (kernels r) (sections r)) trace scores := by
  have hrel : ∀ r, (gs r).isComputingRelScores = c.isComputingRelScores := fun r =>
    congrArg Common.isComputingRelScores (hcommon r)
  have hmapper : ∀ r, (gs r).nameMapper = c.nameMapper := fun r =>
    congrArg Common.nameMapper (hcommon r)
  by_cases hneed : c.isComputingRelScores = true
  · obtain ⟨trace, minTimes, hreduce, hnames⟩ :=
      allReduceTimes_lockstep hconsecutive (hcovers hneed)
    obtain ⟨scores, hscores, -⟩ := Lockstep.ofExcept (processGroup n) fun r =>
      (exists_computeScores_ok (hnames r).1 (hnames r).2).imp fun _ h =>
        And.intro (b := True) h trivial
    refine ⟨trace ++ [], scores, ?_⟩
    have hprograms : (fun r => (gs r).relativeScores n (kernels r) (sections r)) = fun r =>
        allReduceTimes n c.nameMapper (kernels r) (sections r) >>= fun minTimes =>
          .ofExcept (computeScores (kernels r) (sections r) minTimes.1.get? minTimes.2.get?) := by
      funext r
      rw [relativeScores, if_pos ((hrel r).trans hneed), hmapper]
    rw [hprograms]
    exact hreduce.bind hscores
  · refine ⟨[], fun _ => .nan, .done fun r => ?_⟩
    rw [relativeScores, if_neg (hrel r ▸ hneed)]
    rfl

theorem gatherResultsOnRank0_lockstep (individual relative : Fin n → LocalScores) :
    ∃ trace scores, Lockstep (processGroup n)
      (fun r => (gs r).gatherResultsOnRank0 n r (individual r) (relative r)) trace scores := by
  have hmapper : ∀ r, (gs r).nameMapper = c.nameMapper := fun r =>
    congrArg Common.nameMapper (hcommon r)
  obtain ⟨tensors, htensors, hlength⟩ := Lockstep.ofExcept (processGroup n) fun r =>
    exists_getTensorFromScores_ok hconsecutive.sections (individual r) (relative r)
  obtain ⟨trace, hgather⟩ := gatherOnRank0_lockstep hlength
  have hadd : ∀ r, ∃ scores, (List.range n).foldlM
      ((gs r).addGathered (ofFn tensors)) PerfScores.empty = .ok scores := by
    intro r
    refine foldlM_total _ (fun scores s hs => ?_) _
    have hs' : s < (ofFn tensors).length := by
      rw [length_ofFn]
      exact mem_range.mp hs
    have hget : (ofFn tensors).getD s [] = tensors ⟨s, mem_range.mp hs⟩ := by
      rw [getD_eq_getElem?_getD, getElem?_eq_getElem hs', List.getElem_ofFn]
      rfl
    obtain ⟨both, hboth⟩ := exists_getScoresFromTensor_ok hconsecutive.sections
      (hlength ⟨s, mem_range.mp hs⟩)
    rw [addGathered, hmapper, hget, hboth]
    exact ⟨_, rfl⟩
  choose scores hscores using hadd
  refine ⟨[] ++ (trace ++ []), fun r => if r.val = 0 then scores r else .empty, ?_⟩
  have hprograms : (fun r => (gs r).gatherResultsOnRank0 n r (individual r) (relative r)) =
      fun r => .ofExcept (getTensorFromScores c.nameMapper.sections (individual r) (relative r)) >>=
        fun scoresTensor => Straggler.gatherOnRank0 n scoresTensor >>= fun gatherList =>
          if r.val = 0 then
            .ofExcept ((List.range n).foldlM ((gs r).addGathered (gatherList.getD [])) .empty)
          else pure .empty := by
    funext r
    rw [gatherResultsOnRank0, hmapper]
  rw [hprograms]
  refine htensors.bind (hgather.bind (.done fun r => ?_))
  by_cases hzero : r.val = 0
  · simp only [if_pos hzero, Option.getD_some, hscores r]
    rfl
  · simp only [if_neg hzero]
    rfl

theorem formatScores_lockstep (individual relative : Fin n → LocalScores) :
    ∃ trace scores, Lockstep (processGroup n)
      (fun r => (gs r).formatScores n r (individual r) (relative r)) trace scores := by
  have hgather : ∀ r, (gs r).gatherOnRank0 = c.gatherOnRank0 := fun r =>
    congrArg Common.gatherOnRank0 (hcommon r)
  by_cases hneed : c.gatherOnRank0 = true
  · obtain ⟨trace, scores, hrun⟩ :=
      gatherResultsOnRank0_lockstep hcommon hconsecutive individual relative
    refine ⟨trace, scores, ?_⟩
    have hprograms : (fun r => (gs r).formatScores n r (individual r) (relative r)) = fun r =>
        (gs r).gatherResultsOnRank0 n r (individual r) (relative r) :=
      funext fun r => if_pos ((hgather r).trans hneed)
    rw [hprograms]
    exact hrun
  · exact ⟨[], fun r => PerfScores.empty.add (gs r) r (individual r) (relative r),
      .done fun r => if_neg (hgather r ▸ hneed)⟩

/-- A report on all ranks, whatever each of them has measured. -/
theorem generateReport_lockstep (sections kernels : Fin n → Summaries) :
    ∃ trace results c', Lockstep (processGroup n)
      (fun r => (gs r).generateReport n r (sections r) (kernels r)) trace results ∧
        (∀ r, (results r).1.common = c') ∧ c'.nameMapper.Consecutive := by
  let kernels' (r : Fin n) : Summaries := filterOutNcclKernels (kernels r)
  obtain ⟨_, located, toLocate, hlocate, hlocated⟩ := maybeGatherRankToNode_lockstep hcommon
  obtain ⟨_, mapped, nameMapper, hmap, hmapped, hconsecutive', hcovers⟩ :=
    mapNames_lockstep hlocated hconsecutive kernels' sections
  obtain ⟨scored, hscore, hscored⟩ := individualScores_lockstep hmapped kernels' sections
  obtain ⟨_, relative, hrelative⟩ := relativeScores_lockstep hscored hconsecutive' hcovers
  obtain ⟨_, scores, hformat⟩ :=
    formatScores_lockstep hscored hconsecutive' (fun r => (scored r).2) relative
  exact ⟨_, _, _, hlocate.bind (hmap.bind (hscore.bind (hrelative.bind (hformat.bind
    (.pure _))))), hscored, hconsecutive'⟩

end

end ReportGenerator

end ResiliencyExt.Attribution.Straggler
