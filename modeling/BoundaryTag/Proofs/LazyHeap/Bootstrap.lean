import BoundaryTag.Malloc
import BoundaryTag.Proofs.LazyHeap.Basic

namespace BoundaryTag

open LazyHeap

/-- A call to a heap that may not be there yet. A program writes to memory on its own. -/
def Call.runLazy : Call → LazyHeapM (Option Nat)
  | allocate size => LazyHeap.allocate size
  | allocateZeroed count size => LazyHeap.allocateZeroed count size
  | allocateAligned align size => LazyHeap.allocateAligned align size
  | resize address size => LazyHeap.resize address size
  | release address => do
    LazyHeap.release address
    return none
  | call@(write ..) => return (← onExisting call.run).join

namespace Use

def runLazy : Use → LazyHeapM Answer
  | call made => .address <$> made.runLazy
  | usableSize address => .size <$> LazyHeap.usableSize address
  | contains address => .contained <$> LazyHeap.contains address
  | audit => .audited <$> LazyHeap.audit
  | stats => .counted <$> LazyHeap.stats

/-- Whether the heap is there after the use, however it is answered. -/
def builds : Use → Bool
  | call (.allocate ..) | call (.allocateZeroed ..) | call (.allocateAligned ..)
  | call (.resize ..) => true
  | call (.release ..) | call (.write ..) | usableSize _ | contains _ | audit | stats => false

/-- What is answered while there is no heap, where a heap would give the other answer. -/
def early : Use → Answer → Answer
  | contains _, _ => .contained false
  | audit, _ => .audited none
  | stats, _ => .counted none
  | call _, answer | usableSize _, answer => answer

end Use

/-- The answers to some uses, as they change where no heap is there until a use builds it. -/
def lazily : List Use → List Answer → List Answer
  | use :: uses, answer :: answers =>
    if use.builds then answer :: answers else use.early answer :: lazily uses answers
  | _, answers => answers

variable {state : LazyHeap} {region : ReservedRegion} {heap after : Heap ReservedRegion}
  {log log' : Array Event} {live : List Nat} {blocks : List BlockInfo} {chains : Chains}

/-- A request is answered as it is in the heap, if there is one. -/
theorem runOn_onBuilt_join {work : HeapM ReservedRegion (Option Nat)} {answer : Option Nat}
    (hrun : work.runOn heap log = .ok (answer, after) log') (state : LazyHeap) :
    (do return (← onBuilt work).join : LazyHeapM (Option Nat)).runOn (state.holding heap) log =
      .ok (answer, state.holding after) log' := by
  simp only [LazyHeapM.runOn_bind, runOn_onBuilt_holding, runOn_onExisting hrun,
    LazyHeapM.runOn_pure, Option.join_some]

theorem runOn_onBuilt_join_of_none (hstate : state.heap = none)
    (hbuild : state.construct.run log = .ok (some heap) log')
    (work : HeapM ReservedRegion (Option Nat)) :
    (do return (← onBuilt work).join : LazyHeapM (Option Nat)).runOn state log =
      (do return (← onBuilt work).join : LazyHeapM (Option Nat)).runOn (state.holding heap)
        log' := by
  simp only [LazyHeapM.runOn_bind, runOn_onBuilt_of_none hstate hbuild, runOn_onBuilt_holding]

/-- A request is not granted where no heap can be built. -/
theorem runOn_onBuilt_join_of_refused (hstate : state.heap = none)
    (hbuild : state.construct.run log = .ok none log')
    (work : HeapM ReservedRegion (Option Nat)) :
    (do return (← onBuilt work).join : LazyHeapM (Option Nat)).runOn state log =
      .ok (none, state) log' := by
  simp only [LazyHeapM.runOn_bind, runOn_onBuilt_of_refused hstate hbuild, LazyHeapM.runOn_pure,
    Option.join_none]

theorem runOn_release_holding {address : Option Nat}
    (hrun : (Heap.release address).runOn heap log = .ok ((), after) log') (state : LazyHeap) :
    (LazyHeap.release address).runOn (state.holding heap) log =
      .ok ((), state.holding after) log' := by
  cases address with
  | none =>
    obtain ⟨rfl, rfl⟩ : heap = after ∧ log = log' := by simpa [Heap.release] using hrun
    rfl
  | some address =>
    simp only [LazyHeap.release, Option.isSome_some, if_true, LazyHeapM.runOn_discard,
      runOn_onExisting hrun]

namespace Call

variable {call : Call} {answer : Option Nat}

theorem runLazy_holding (hrun : call.run.runOn heap log = .ok (answer, after) log')
    (state : LazyHeap) :
    call.runLazy.runOn (state.holding heap) log = .ok (answer, state.holding after) log' := by
  cases call with
  | allocate size => exact runOn_onBuilt_join hrun state
  | allocateZeroed count size => exact runOn_onBuilt_join hrun state
  | allocateAligned align size => exact runOn_onBuilt_join hrun state
  | resize address size => exact runOn_onBuilt_join hrun state
  | release address =>
    obtain ⟨_, middle, during, hrelease, hrun⟩ := HeapM.runOn_bind_eq_ok.1 hrun
    cases hrun
    simp only [Call.runLazy, LazyHeapM.runOn_bind, runOn_release_holding hrelease,
      LazyHeapM.runOn_pure]
  | write address start count f =>
    simp only [Call.runLazy, LazyHeapM.runOn_bind, runOn_onExisting hrun, LazyHeapM.runOn_pure,
      Option.join_some]

end Call

namespace Use

variable {use : Use} {answer : Answer}

/-- No address comes into use by an early answer that does not by the other. -/
theorem live_early (use : Use) (answer : Answer) (live : List Nat) :
    use.live (use.early answer) live = use.live answer live := by
  cases use <;> cases answer <;> rfl

/-- Once the heap is there, every use goes on in it. -/
theorem runLazy_holding (hrun : use.run.runOn heap log = .ok (answer, after) log')
    (state : LazyHeap) :
    use.runLazy.runOn (state.holding heap) log = .ok (answer, state.holding after) log' := by
  cases use with
  | call made =>
    obtain ⟨given, hmade, rfl⟩ := HeapM.runOn_map_eq_ok.1 hrun
    simp only [runLazy, LazyHeapM.runOn_map, made.runLazy_holding hmade]
  | usableSize address =>
    obtain ⟨bytes, hasked, rfl⟩ := HeapM.runOn_map_eq_ok.1 hrun
    simp only [runLazy, LazyHeap.usableSize, LazyHeapM.runOn_map, LazyHeapM.runOn_bind,
      runOn_onExisting hasked, LazyHeapM.runOn_pure, Option.getD_some]
  | contains address =>
    obtain ⟨inside, hasked, rfl⟩ := HeapM.runOn_map_eq_ok.1 hrun
    simp only [runLazy, LazyHeap.contains, LazyHeapM.runOn_map, LazyHeapM.runOn_bind,
      runOn_onExisting hasked, LazyHeapM.runOn_pure, Option.getD_some]
  | audit =>
    obtain ⟨report, hasked, rfl⟩ := HeapM.runOn_map_eq_ok.1 hrun
    simp only [runLazy, LazyHeap.audit, LazyHeapM.runOn_map, runOn_onExisting hasked, Function.comp]
  | stats =>
    obtain ⟨figures, hasked, rfl⟩ := HeapM.runOn_map_eq_ok.1 hrun
    simp only [runLazy, LazyHeap.stats, LazyHeapM.runOn_map, runOn_onExisting hasked, Function.comp]

/-- A use that builds the heap goes on in the heap that it builds. -/
theorem runLazy_of_builds (hbuilds : use.builds) (hstate : state.heap = none)
    (hbuild : state.construct.run log = .ok (some heap) log') :
    use.runLazy.runOn state log = use.runLazy.runOn (state.holding heap) log' := by
  cases use with
  | call made =>
    simp only [runLazy, LazyHeapM.runOn_map]
    cases made with
    | allocate size =>
      simp only [Call.runLazy, LazyHeap.allocate, runOn_onBuilt_join_of_none hstate hbuild]
    | allocateZeroed count size =>
      simp only [Call.runLazy, LazyHeap.allocateZeroed, runOn_onBuilt_join_of_none hstate hbuild]
    | allocateAligned align size =>
      simp only [Call.runLazy, LazyHeap.allocateAligned, runOn_onBuilt_join_of_none hstate hbuild]
    | resize address size =>
      simp only [Call.runLazy, LazyHeap.resize, runOn_onBuilt_join_of_none hstate hbuild]
    | release address => cases hbuilds
    | write address start count f => cases hbuilds
  | usableSize address => cases hbuilds
  | contains address => cases hbuilds
  | audit => cases hbuilds
  | stats => cases hbuilds

/-- A use that would build the heap changes nothing if no heap can be built. -/
theorem runLazy_of_refused (hbuilds : use.builds) (hstate : state.heap = none)
    (hbuild : state.construct.run log = .ok none log') :
    use.runLazy.runOn state log = .ok (.address none, state) log' := by
  cases use with
  | call made =>
    simp only [runLazy, LazyHeapM.runOn_map]
    cases made with
    | allocate size =>
      simp only [Call.runLazy, LazyHeap.allocate, runOn_onBuilt_join_of_refused hstate hbuild]
    | allocateZeroed count size =>
      simp only [Call.runLazy, LazyHeap.allocateZeroed,
        runOn_onBuilt_join_of_refused hstate hbuild]
    | allocateAligned align size =>
      simp only [Call.runLazy, LazyHeap.allocateAligned,
        runOn_onBuilt_join_of_refused hstate hbuild]
    | resize address size =>
      simp only [Call.runLazy, LazyHeap.resize, runOn_onBuilt_join_of_refused hstate hbuild]
    | release address => cases hbuilds
    | write address start count f => cases hbuilds
  | usableSize address => cases hbuilds
  | contains address => cases hbuilds
  | audit => cases hbuilds
  | stats => cases hbuilds

/-- No address comes into use by a request that is not granted. -/
theorem live_refused (use : Use) : use.live (.address none) [] = [] := by
  cases use with
  | call made =>
    simp only [live, Call.live, Option.toList_none, List.nil_append]
    split <;> rfl
  | usableSize address => rfl
  | contains address => rfl
  | audit => rfl
  | stats => rfl

/-- While no address is in use, there is nothing to release and nowhere to write. -/
theorem eq_release_none_of_idle {made : Call} (hvalid : (Use.call made).Valid heap [])
    (hidle : (Use.call made).builds = false) : made = .release none := by
  cases made with
  | release address =>
    cases address with
    | none => rfl
    | some address => exact absurd (hvalid.1 address rfl) List.not_mem_nil
  | write address start count f => exact absurd (hvalid.1 address rfl) List.not_mem_nil
  | allocate size => cases hidle
  | allocateZeroed count size => cases hidle
  | allocateAligned align size => cases hidle
  | resize address size => cases hidle

/-- Where there is no heap, a use that does not build one has its early answer. -/
theorem runLazy_of_idle (hvalid : use.Valid heap []) (hidle : use.builds = false)
    (hstate : state.heap = none) (log : Array Event) :
    use.runLazy.runOn state log = .ok (use.early (.address none), state) log := by
  cases use with
  | call made =>
    obtain rfl := eq_release_none_of_idle hvalid hidle
    rfl
  | usableSize address => exact absurd hvalid List.not_mem_nil
  | contains address =>
    simp only [runLazy, LazyHeap.contains, LazyHeapM.runOn_map, LazyHeapM.runOn_bind,
      runOn_onExisting_of_none hstate, LazyHeapM.runOn_pure, Option.getD_none, early]
  | audit =>
    simp only [runLazy, LazyHeap.audit, LazyHeapM.runOn_map, runOn_onExisting_of_none hstate, early]
  | stats =>
    simp only [runLazy, LazyHeap.stats, LazyHeapM.runOn_map, runOn_onExisting_of_none hstate, early]

/-- While no address is in use, a use that does not build the heap leaves a heap as it is. Where
    there is none, it builds none. -/
theorem idle (h : heap.Owns [] blocks chains) (hvalid : use.Valid heap [])
    (hidle : use.builds = false) (hstate : state.heap = none) :
    ∃ answer, use.live answer [] = [] ∧
      (∀ log, use.run.runOn heap log = .ok (answer, heap) log) ∧
      ∀ log, use.runLazy.runOn state log = .ok (use.early answer, state) log := by
  have hlazy := runLazy_of_idle hvalid hidle hstate
  by_cases hcall : ∃ call, use = .call call
  · obtain ⟨call, rfl⟩ := hcall
    obtain rfl := eq_release_none_of_idle hvalid hidle
    exact ⟨.address none, live_refused _, fun log => rfl, hlazy⟩
  · obtain ⟨answer, hrun, hlive⟩ := h.question_spec hvalid fun call heq => hcall ⟨call, heq⟩
    refine ⟨answer, hlive, hrun, fun log => ?_⟩
    rw [hlazy]
    cases use with
    | call call => exact absurd ⟨call, rfl⟩ hcall
    | usableSize address => exact absurd hvalid List.not_mem_nil
    | contains address => rfl
    | audit => rfl
    | stats => rfl

end Use

section Sessions

variable {uses : List Use} {answers : List Answer}

/-- Valid uses are answered, one after the other. -/
theorem Heap.Owns.uses_spec (h : heap.Owns live blocks chains)
    (hvalid : heap.Accepts live log uses) :
    ∃ answers after last, (uses.mapM Use.run).runOn heap log = .ok (answers, after) last ∧
      ∃ live blocks chains, after.Owns live blocks chains := by
  induction uses generalizing heap live blocks chains log with
  | nil => exact ⟨[], heap, log, rfl, live, blocks, chains, h⟩
  | cons use uses ih =>
    obtain ⟨hfirst, hrest⟩ := hvalid
    obtain ⟨answer, middle, log', hrun, infos, links, hmiddle⟩ := h.use_spec hfirst log
    obtain ⟨answers, after, last, hruns, hafter⟩ := ih hmiddle (hrest answer middle log' hrun)
    refine ⟨answer :: answers, after, last, ?_, hafter⟩
    simp only [List.mapM_cons, HeapM.runOn_bind, hrun, hruns, HeapM.runOn_pure]

theorem runOn_mapM_holding
    (hrun : (uses.mapM Use.run).runOn heap log = .ok (answers, after) log') (state : LazyHeap) :
    (uses.mapM Use.runLazy).runOn (state.holding heap) log =
      .ok (answers, state.holding after) log' := by
  induction uses generalizing heap log answers with
  | nil =>
    cases hrun
    rfl
  | cons use uses ih =>
    rw [List.mapM_cons] at hrun
    obtain ⟨answer, middle, during, hfirst, hrun⟩ := HeapM.runOn_bind_eq_ok.1 hrun
    obtain ⟨rest, final, last, hrest, hrun⟩ := HeapM.runOn_bind_eq_ok.1 hrun
    cases hrun
    simp only [List.mapM_cons, LazyHeapM.runOn_bind, use.runLazy_holding hfirst, ih hrest,
      LazyHeapM.runOn_pure]

/-- Uses are answered as on a heap that was built before them, but for the early questions. -/
theorem runOn_mapM_lazily (h : heap.Owns [] blocks chains) (hstate : state.heap = none)
    (hbuild : state.construct.run log = .ok (some heap) log')
    (hvalid : heap.Accepts [] log' uses) :
    ∃ answers after last final last',
      (uses.mapM Use.run).runOn heap log' = .ok (answers, after) last ∧
      (uses.mapM Use.runLazy).runOn state log = .ok (lazily uses answers, final) last' ∧
      final = (if uses.any Use.builds then state.holding after else state) ∧
      ∃ live blocks chains, after.Owns live blocks chains := by
  induction uses with
  | nil => exact ⟨[], heap, log', state, log, rfl, rfl, rfl, [], blocks, chains, h⟩
  | cons use uses ih =>
    cases hbuilds : use.builds with
    | true =>
      obtain ⟨answers, after, last, hrun, hafter⟩ := h.uses_spec hvalid
      have hlazily : lazily (use :: uses) answers = answers := by
        cases answers with
        | nil => rfl
        | cons answer answers => exact if_pos hbuilds
      have hstart : ((use :: uses).mapM Use.runLazy).runOn state log =
          ((use :: uses).mapM Use.runLazy).runOn (state.holding heap) log' := by
        simp only [List.mapM_cons, LazyHeapM.runOn_bind,
          Use.runLazy_of_builds hbuilds hstate hbuild]
      refine ⟨answers, after, last, state.holding after, last, hrun, ?_, ?_, hafter⟩
      · rw [hstart, hlazily, runOn_mapM_holding hrun]
      · rw [List.any_cons, hbuilds, Bool.true_or, if_pos rfl]
    | false =>
      obtain ⟨hfirst, hrest⟩ := hvalid
      obtain ⟨answer, hlive, hrun, hlazy⟩ := Use.idle h hfirst hbuilds hstate
      have hnext := hrest answer heap log' (hrun log')
      rw [hlive] at hnext
      obtain ⟨answers, after, last, final, last', hruns, hlazies, hfinal, hafter⟩ := ih hnext
      refine ⟨answer :: answers, after, last, final, last', ?_, ?_, ?_, hafter⟩
      · simp only [List.mapM_cons, HeapM.runOn_bind, hrun, hruns, HeapM.runOn_pure]
      · simp only [List.mapM_cons, LazyHeapM.runOn_bind, hlazy, hlazies, LazyHeapM.runOn_pure,
          lazily, hbuilds, Bool.false_eq_true, if_false]
      · rw [hfinal, List.any_cons, hbuilds, Bool.false_or]

/-- Whoever checks the heap is told whether its audit reports nothing wrong. Where there is no
    report, there is nothing wrong. -/
theorem runOn_checkHeap {report : Option Report} {next : LazyHeap}
    (haudit : LazyHeap.audit.runOn state log = .ok (report, next) log') (line : Int) :
    ∃ last, (Malloc.checkHeap line).runOn state log =
      .ok (report.all Report.isOk, next) last := by
  simp only [Malloc.checkHeap, LazyHeapM.runOn_bind, haudit]
  cases report with
  | none => exact ⟨log'.push (.auditSkipped line), rfl⟩
  | some report =>
    rw [Option.all_some]
    cases hok : report.isOk with
    | true =>
      refine ⟨log', ?_⟩
      simp only [hok, Bool.not_true, Bool.false_eq_true, if_false, LazyHeapM.runOn_pure]
    | false =>
      refine ⟨log'.push (.auditFailed line report.violations.length report.blocks), ?_⟩
      simp only [hok, Bool.not_false, if_true, LazyHeapM.runOn_bind, LazyHeapM.runOn_pure]
      rfl

/-- An audit of no heap, and one between two uses, finds nothing wrong. -/
theorem runOn_audit (hstate : state.heap = none ∨ ∃ heap live blocks chains,
      state = state.holding heap ∧ heap.Owns live blocks chains) (log : Array Event) :
    ∃ report, LazyHeap.audit.runOn state log = .ok (report, state) log ∧
      report.all Report.isOk = true := by
  rcases hstate with hnone | ⟨heap, live, blocks, chains, hheap, howns⟩
  · exact ⟨none, runOn_onExisting_of_none hnone _ log, rfl⟩
  · rw [hheap]
    exact ⟨_, runOn_onExisting (howns.sound.audit_eq log) state, rfl⟩

/-- A heap that is built on first use answers whatever it is asked like a heap that was there from
    the start, except that before the first request, granted or not, it has nothing to report or to
    count and contains no address. Nothing but a request builds it. Whoever checks it is told what
    its audit reports, and that is at any time that nothing is wrong. -/
theorem answers_lazily {state : LazyHeap} {region : ReservedRegion} (hbacked : state.Backed region)
    (hobliging : state.Obliging) (hstate : state.heap = none) (log : Array Event) :
    (∃ heap log', (Heap.create state.build region).run log = .ok (.ok heap) log' ∧
      ∀ uses : List Use, heap.Accepts [] log' uses →
        ∃ answers after last final last',
          (uses.mapM Use.run).runOn heap log' = .ok (answers, after) last ∧
          (uses.mapM Use.runLazy).runOn state log = .ok (lazily uses answers, final) last' ∧
          final.heap = (if uses.any Use.builds then some after else none) ∧
          ∀ line log, ∃ log',
            (Malloc.checkHeap line).runOn final log = .ok (true, final) log') ∧
    ∀ (other next : LazyHeap) (report : Option Report) (log log' : Array Event),
      LazyHeap.audit.runOn other log = .ok (report, next) log' →
      ∀ line, ∃ last, (Malloc.checkHeap line).runOn other log =
        .ok (report.all Report.isOk, next) last := by
  refine ⟨?_, fun _ _ _ _ _ haudit => runOn_checkHeap haudit⟩
  obtain ⟨heap, log', hcreate, hbuild, blocks, chains, howns⟩ :=
    hbacked.exists_construct hobliging log
  refine ⟨heap, log', hcreate, fun uses hvalid => ?_⟩
  obtain ⟨answers, after, last, final, last', hrun, hlazy, hfinal, live, infos, links, hafter⟩ :=
    runOn_mapM_lazily howns hstate hbuild hvalid
  have hkept : final.heap = none ∨ ∃ heap live blocks chains,
      final = final.holding heap ∧ heap.Owns live blocks chains := by
    rw [hfinal]
    split
    · exact .inr ⟨after, live, infos, links, rfl, hafter⟩
    · exact .inl hstate
  refine ⟨answers, after, last, final, last', hrun, hlazy, ?_, fun line log => ?_⟩
  · rw [hfinal]
    split
    · rfl
    · exact hstate
  · obtain ⟨report, haudit, hok⟩ := runOn_audit hkept log
    rw [← hok]
    exact runOn_checkHeap haudit line

/-- A reservation that starts a mebibyte into the address space. -/
def sampleLazy : LazyHeap := { build := .checked, base := 1048576 }

def sampleReservation : ReservedRegion where
  base := 1048576
  reserved := reservation
  pageSize := pageBytes
  whole := by decide

theorem backed_sampleReservation : sampleLazy.Backed sampleReservation :=
  ⟨by rfl, by decide, by decide⟩

/-- Early questions, a first request that is refused, and uses of what is granted later. -/
def sampleUses : List Use :=
  [.audit, .contains 1048608, .call (.release none), .call (.allocate 0), .stats,
    .call (.allocate 100), .usableSize 1048608, .contains 1048608,
    .call (.resize (some 1048608) 5000), .call (.release (some 1048736)), .audit]

/-- A heap whose first words were never written. -/
def unlaid : Heap ReservedRegion where
  region := { sampleReservation with committed := 4096, len := 32 }
  pool := { arena := { build := .checked, base := 1048576, len := 32 } }

theorem acceptsFrom_sampleReservation :
    Heap.acceptsFrom .checked sampleReservation sampleUses = true := by
  decide +kernel

/-- Beside the sample uses, a damaged heap is checked, which is not in order. -/
theorem answers_lazily_sampleUses :
    (∃ heap log, (Heap.create .checked sampleReservation).run #[] = .ok (.ok heap) log ∧
      ∃ answers after last final last',
        (sampleUses.mapM Use.run).runOn heap log = .ok (answers, after) last ∧
        (sampleUses.mapM Use.runLazy).runOn sampleLazy #[] =
          .ok (lazily sampleUses answers, final) last' ∧
        final.heap = some after ∧
        ∀ line log, ∃ log', (Malloc.checkHeap line).runOn final log = .ok (true, final) log') ∧
    ∃ next log, (Malloc.checkHeap 1).runOn (sampleLazy.holding unlaid) #[] =
      .ok (false, next) log := by
  obtain ⟨hlazily, hchecks⟩ :=
    answers_lazily backed_sampleReservation (fun _ _ => rfl) rfl #[]
  refine ⟨?_, ?_⟩
  · obtain ⟨heap, log, hcreate, hvalid⟩ :=
      Heap.accepts_of_acceptsFrom acceptsFrom_sampleReservation
    obtain ⟨heap', log', hcreate', huses⟩ := hlazily
    rw [show sampleLazy.build = .checked from rfl, hcreate] at hcreate'
    cases hcreate'
    exact ⟨heap, log, hcreate, huses sampleUses hvalid⟩
  · have hreport : (LazyHeap.audit.answerOn (sampleLazy.holding unlaid) #[]).map
        (Option.all Report.isOk) = some false := by
      decide +kernel
    obtain ⟨report, hanswer, hdamaged⟩ := Option.map_eq_some_iff.1 hreport
    obtain ⟨next, log, haudit⟩ := LazyHeapM.exists_of_answerOn hanswer
    obtain ⟨last, hcheck⟩ := hchecks _ _ _ _ _ haudit 1
    rw [hdamaged] at hcheck
    exact ⟨next, last, hcheck⟩

end Sessions

end BoundaryTag
