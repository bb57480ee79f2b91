import BoundaryTag.Audit.Report
import BoundaryTag.Proofs.Audit.Lists
import BoundaryTag.Proofs.Run.Step

namespace BoundaryTag

/-- What an audit asks of a pool. That the members of the lists are the free blocks is not asked:
    only that there are as many of these as of those. -/
structure Pool.Consistent (pool : Pool) (blocks : List BlockInfo) (chains : Chains) : Prop where
  regular : pool.arena.Regular blocks
  lists : ∀ sizeClass, pool.Lists sizeClass (chains sizeClass)
  count_eq : chains.members.length = (vacant blocks).length

namespace Pool

variable {pool : Pool}

/-- An audit is clean if both walks are, and count the same. -/
theorem audit_of_surveys {arena : Survey} {lists : ListSurvey}
    (hsurvey : pool.arena.survey = .ok arena) (hlists : pool.surveyLists = .ok lists) :
    ∃ report, pool.audit = .ok report ∧ (report.isOk = true ↔ arena.violations = [] ∧
      (arena.complete = true → lists.violations = [] ∧ lists.listed = arena.freeBlocks)) := by
  cases hcomplete : arena.complete with
  | true =>
    rw [audit, hsurvey, ok_bind, if_pos hcomplete, hlists, ok_bind]
    refine ⟨_, rfl, ?_⟩
    simp [Report.isOk, hcomplete]
  | false =>
    rw [audit, hsurvey, ok_bind, if_neg (by simp [hcomplete]), pure_eq_ok, ok_bind]
    refine ⟨_, rfl, ?_⟩
    simp [Report.isOk, hcomplete]

/-- An audit of a pool answers on any contents, and decides whether the pool is consistent. -/
theorem audit_spec (h : pool.arena.WellPlaced) :
    ∃ report, pool.audit = .ok report ∧
      (report.isOk = true ↔ ∃ blocks chains, pool.Consistent blocks chains) := by
  obtain ⟨arena, hsurvey, hregular, hwalked⟩ := h.survey_spec
  obtain ⟨lists, hlists, hchains, hlisted⟩ := pool.surveyLists_spec h
  obtain ⟨report, haudit, hclean⟩ := audit_of_surveys hsurvey hlists
  refine ⟨report, haudit, hclean.trans ⟨?_, ?_⟩⟩
  · rintro ⟨harena, hrest⟩
    obtain ⟨blocks, hblocks⟩ := hregular.1 harena
    obtain ⟨hcomplete, hfree⟩ := hwalked blocks hblocks
    obtain ⟨hnone, hcount⟩ := hrest hcomplete
    obtain ⟨chains, hmembers⟩ := hchains.1 hnone
    refine ⟨blocks, chains, hblocks, hmembers, ?_⟩
    rw [← hlisted chains hmembers, hcount, hfree]
  · rintro ⟨blocks, chains, hblocks, hmembers, hcount⟩
    refine ⟨hregular.2 ⟨blocks, hblocks⟩, fun _ => ⟨hchains.2 ⟨chains, hmembers⟩, ?_⟩⟩
    rw [hlisted chains hmembers, hcount, (hwalked blocks hblocks).2]

/-- An audit of a consistent pool counts its blocks and the members of its lists. -/
theorem Consistent.audit_eq {blocks : List BlockInfo} {chains : Chains}
    (h : pool.Consistent blocks chains) (hplaced : pool.arena.WellPlaced) :
    pool.audit = .ok
      { blocks := blocks.length
        freeBlocks := (vacant blocks).length
        listed := chains.members.length
        violations := [] } := by
  rw [audit, hplaced.survey_of_regular h.regular, ok_bind, if_pos rfl,
    surveyLists_of_lists hplaced h.lists, ok_bind]
  simp [h.count_eq]

end Pool

section Audit

variable {ρ : Type}

theorem HeapM.runOn_forM_record (violations : List Violation) (heap : Heap ρ)
    (log : Array Event) :
    (violations.forM fun found => (liftM (record (.violation found)) : HeapM ρ Unit)).runOn heap
        log = .ok ((), heap) (log ++ (violations.map Event.violation).toArray) := by
  induction violations generalizing log with
  | nil => simp [List.forM]
  | cons found rest ih =>
    rw [List.forM, runOn_bind, runOn_record]
    simp only [ih, List.map_cons, Array.push_eq_append, Array.append_assoc]
    simp

theorem Heap.runOn_audit_eq {heap : Heap ρ} {report : Report}
    (haudit : heap.pool.audit = .ok report) (log : Array Event) :
    Heap.audit.runOn heap log =
      .ok (report, heap) (log ++ (report.violations.map Event.violation).toArray) := by
  simp only [Heap.audit, HeapM.runOn_bind, HeapM.runOn_get, HeapM.runOn_liftM, haudit,
    HeapM.runOn_forM_record, HeapM.runOn_pure]

theorem Heap.consistent_of_audit {heap after : Heap ρ} (h : heap.pool.arena.WellPlaced)
    {report : Report} {log log' : Array Event}
    (hrun : Heap.audit.runOn heap log = .ok (report, after) log') (hok : report.isOk = true) :
    ∃ blocks chains, heap.pool.Consistent blocks chains := by
  obtain ⟨found, haudit, hclean⟩ := heap.pool.audit_spec h
  rw [Heap.runOn_audit_eq haudit] at hrun
  cases hrun
  exact hclean.1 hok

/-- A sound heap lies in its place, and goes on to do so whatever is written to it. -/
theorem Heap.Sound.wellPlaced [Region ρ] [GrowsInPlace ρ] {heap : Heap ρ}
    {blocks : List BlockInfo} {chains : Chains} (h : heap.Sound blocks chains) (memory : Memory) :
    { heap.pool.arena with memory }.WellPlaced :=
  have hlaid := h.orderly.represents.laid
  ⟨h.base_mod, hlaid.len_mod, hlaid.len_ge, hlaid.short⟩

theorem Reachable.wellPlaced [Region ρ] [GrowsInPlace ρ] {build : Build} {region : ρ}
    {heap : Heap ρ} {live : List Nat} (h : Reachable build region heap live) (memory : Memory) :
    { heap.pool.arena with memory }.WellPlaced := by
  obtain ⟨blocks, chains, howns⟩ := h.owns
  exact howns.sound.wellPlaced memory

/-- An audit answers on any heap that lies in its place, whatever its words and its heads are. It
    changes nothing, logs what it reports, and reports nothing if and only if the heap is
    consistent. -/
theorem isOk_audit_iff {heap : Heap ρ} (h : heap.pool.arena.WellPlaced) (log : Array Event) :
    ∃ report, Heap.audit.runOn heap log =
        .ok (report, heap) (log ++ (report.violations.map Event.violation).toArray) ∧
      (report.isOk = true ↔ ∃ blocks chains, heap.pool.Consistent blocks chains) := by
  obtain ⟨report, haudit, hclean⟩ := heap.pool.audit_spec h
  exact ⟨report, Heap.runOn_audit_eq haudit log, hclean⟩

/-- The heap of the sample run is consistent. -/
theorem consistent_after_sampleCalls : ∃ heap,
    replay .checked sampleRegion sampleCalls = some (heap, [66112, 66048, 65696]) ∧
    heap.pool.arena.WellPlaced ∧ ∃ blocks chains, heap.pool.Consistent blocks chains := by
  have heval : (replay .checked sampleRegion sampleCalls).map (fun state =>
      (state.2, (Heap.audit.answerOn state.1).map Report.isOk)) =
      some ([66112, 66048, 65696], some true) := by
    decide +kernel
  obtain ⟨heap, hreplay, hok⟩ := exists_of_replay heval
  have hplaced := (reachable_of_replay hreplay).wellPlaced heap.pool.arena.memory
  obtain ⟨report, haudit, hclean⟩ := isOk_audit_iff hplaced #[]
  rw [HeapM.answerOn, haudit] at hok
  exact ⟨heap, hreplay, hplaced, hclean.1 (Option.some.inj hok)⟩

end Audit

end BoundaryTag
