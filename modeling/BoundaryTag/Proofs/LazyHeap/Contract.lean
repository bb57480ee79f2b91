import BoundaryTag.Proofs.LazyHeap.Bootstrap
import BoundaryTag.Proofs.Run.Layout

namespace BoundaryTag

open LazyHeap Heap

namespace LayoutCall

/-- A call to a heap that may not be there yet. -/
def run : LayoutCall → LazyHeapM (Option Nat)
  | allocate layout => allocateLayout layout
  | allocateZeroed layout => allocateLayoutZeroed layout
  | resize old layout size => resizeLayout (some old) layout size
  | release old layout => do
    releaseLayout (some old) layout
    return none

variable {state : LazyHeap} {heap after : Heap ReservedRegion} {log log' : Array Event}
  {call : LayoutCall} {answer : Option Nat}

theorem run_holding (hrun : call.serve.runOn heap log = .ok (answer, after) log')
    (state : LazyHeap) :
    call.run.runOn (state.holding heap) log = .ok (answer, state.holding after) log' := by
  cases call with
  | allocate layout =>
    rw [serve] at hrun
    rw [run, allocateLayout]
    split at hrun
    · rw [if_pos ‹_›]
      exact runOn_onBuilt_join hrun state
    · rw [if_neg ‹_›]
      exact runOn_onBuilt_join hrun state
  | allocateZeroed layout =>
    rw [serve] at hrun
    rw [run, allocateLayoutZeroed]
    split at hrun
    · rw [if_pos ‹_›]
      exact runOn_onBuilt_join hrun state
    · rw [if_neg ‹_›]
      obtain ⟨given, middle, during, hrequest, hrun⟩ := HeapM.runOn_bind_eq_ok.1 hrun
      have hfirst : (LazyHeap.allocateAligned layout.align layout.size).runOn (state.holding heap)
          log = .ok (given, state.holding middle) during := runOn_onBuilt_join hrequest state
      cases given with
      | none =>
        cases hrun
        simp only [LazyHeapM.runOn_bind, hfirst, LazyHeapM.runOn_pure]
      | some address =>
        obtain ⟨_, zeroed, last, hzero, hrun⟩ := HeapM.runOn_bind_eq_ok.1 hrun
        cases hrun
        simp only [LazyHeapM.runOn_bind, hfirst, LazyHeap.zero, LazyHeapM.runOn_discard,
          runOn_onExisting hzero, LazyHeapM.runOn_pure]
  | resize old layout size =>
    rw [serve] at hrun
    rw [run, resizeLayout]
    split at hrun
    · rw [if_pos ‹_›]
      exact runOn_onBuilt_join hrun state
    · rw [if_neg ‹_›]
      obtain ⟨given, middle, during, hrequest, hrun⟩ := HeapM.runOn_bind_eq_ok.1 hrun
      have hfirst : (LazyHeap.allocateAligned layout.align size).runOn (state.holding heap)
          log = .ok (given, state.holding middle) during := runOn_onBuilt_join hrequest state
      cases given with
      | none =>
        cases hrun
        simp only [LazyHeapM.runOn_bind, hfirst, LazyHeapM.runOn_pure]
      | some address =>
        obtain ⟨_, copied, during', hcopy, hrun⟩ := HeapM.runOn_bind_eq_ok.1 hrun
        obtain ⟨_, released, last, hrelease, hrun⟩ := HeapM.runOn_bind_eq_ok.1 hrun
        cases hrun
        simp only [LazyHeapM.runOn_bind, hfirst, LazyHeapM.runOn_discard,
          runOn_onExisting hcopy, runOn_release_holding hrelease, LazyHeapM.runOn_pure]
  | release old layout =>
    obtain ⟨_, middle, during, hrelease, hrun⟩ := HeapM.runOn_bind_eq_ok.1 hrun
    cases hrun
    simp only [run, releaseLayout, LazyHeapM.runOn_bind, runOn_release_holding hrelease,
      LazyHeapM.runOn_pure]

/-- Memory that is asked for first comes from the heap that the call builds. -/
theorem run_of_none (hcall : call.given? = none) (hstate : state.heap = none)
    (hbuild : state.construct.run log = .ok (some heap) log') :
    call.run.runOn state log = call.run.runOn (state.holding heap) log' := by
  cases call with
  | allocate layout =>
    rw [run, allocateLayout]
    split <;> exact runOn_onBuilt_join_of_none hstate hbuild _
  | allocateZeroed layout =>
    rw [run, allocateLayoutZeroed]
    split
    · exact runOn_onBuilt_join_of_none hstate hbuild _
    · have hfirst : (LazyHeap.allocateAligned layout.align layout.size).runOn state log =
          (LazyHeap.allocateAligned layout.align layout.size).runOn (state.holding heap) log' :=
        runOn_onBuilt_join_of_none hstate hbuild _
      simp only [LazyHeapM.runOn_bind, hfirst]
  | resize old layout size => cases hcall
  | release old layout => cases hcall

/-- Memory that is asked for first is not granted if no heap can be built. -/
theorem run_of_refused (hcall : call.given? = none) (hstate : state.heap = none)
    (hbuild : state.construct.run log = .ok none log') :
    call.run.runOn state log = .ok (none, state) log' := by
  cases call with
  | allocate layout =>
    rw [run, allocateLayout]
    split <;> exact runOn_onBuilt_join_of_refused hstate hbuild _
  | allocateZeroed layout =>
    rw [run, allocateLayoutZeroed]
    split
    · exact runOn_onBuilt_join_of_refused hstate hbuild _
    · have hfirst : (LazyHeap.allocateAligned layout.align layout.size).runOn state log =
          .ok (none, state) log' := runOn_onBuilt_join_of_refused hstate hbuild _
      simp only [LazyHeapM.runOn_bind, hfirst, LazyHeapM.runOn_pure]
  | resize old layout size => cases hcall
  | release old layout => cases hcall

theorem live_refused (hcall : call.given? = none) : call.live none [] = [] := by
  cases call with
  | allocate layout => rfl
  | allocateZeroed layout => rfl
  | resize old layout size => cases hcall
  | release old layout => cases hcall

end LayoutCall

namespace LazyHeap

variable {start state after : LazyHeap} {region : ReservedRegion} {heap : Heap ReservedRegion}
  {live : List Nat} {log log' : Array Event} {use : Use} {call : LayoutCall}

/-- What holds of the heap, or, if there is none yet, of any. -/
def OnHeap (state : LazyHeap) (holds : Heap ReservedRegion → Prop) : Prop :=
  match state.heap with
  | some heap => holds heap
  | none => ∀ heap, holds heap

theorem OnHeap.of_none {holds : Heap ReservedRegion → Prop} (h : state.OnHeap holds)
    (hstate : state.heap = none) (heap : Heap ReservedRegion) : holds heap := by
  rw [OnHeap, hstate] at h
  exact h heap

theorem OnHeap.of_some {holds : Heap ReservedRegion → Prop} (h : state.OnHeap holds)
    (hstate : state.heap = some heap) : holds heap := by
  rw [OnHeap, hstate] at h
  exact h

/-- The state under a system that may permit other pages than before. -/
def under (state : LazyHeap) (permits : Nat → Nat → Bool) : LazyHeap :=
  { state with
    permits
    heap := state.heap.map fun heap => { heap with region.permits := permits } }

/-- The states that a program leads to with valid uses and calls by layout, with the addresses in
    use. Between them the system may change its mind about any pages. No call asks it for the same
    pages twice. -/
inductive Reachable (start : LazyHeap) : LazyHeap → List Nat → Prop
  | start : Reachable start start []
  | use {state after : LazyHeap} {live : List Nat} {use : Use} {answer : Answer}
    {log log' : Array Event} :
    Reachable start state live → state.OnHeap (use.Valid · live) →
    use.runLazy.runOn state log = .ok (answer, after) log' →
    Reachable start after (use.live answer live)
  | layout {state after : LazyHeap} {live : List Nat} {call : LayoutCall} {answer : Option Nat}
    {log log' : Array Event} :
    Reachable start state live → state.OnHeap (call.Valid · live) →
    call.run.runOn state log = .ok (answer, after) log' →
    Reachable start after (call.live answer live)
  | system {state : LazyHeap} {live : List Nat} (permits : Nat → Nat → Bool) :
    Reachable start state live → Reachable start (state.under permits) live

/-- The heap is sound and has blocks in use at some addresses, or it is not there and there are no
    such addresses. Its reservation is granted. -/
structure Keeps (state : LazyHeap) (live : List Nat) : Prop where
  backed : ∃ region, state.Backed region
  owns : state.heap = none ∧ live = [] ∨
    ∃ heap blocks chains, state.heap = some heap ∧ heap.Owns live blocks chains

theorem holding_eq (h : state.heap = some heap) : state.holding heap = state := by
  rw [holding, ← h]

theorem Keeps.owns_of_some (h : state.Keeps live) (hheap : state.heap = some heap) :
    ∃ blocks chains, heap.Owns live blocks chains := by
  rcases h.owns with ⟨hnone, -⟩ | ⟨other, blocks, chains, hother, howns⟩
  · rw [hheap] at hnone
    cases hnone
  · rw [hheap] at hother
    cases hother
    exact ⟨blocks, chains, howns⟩

theorem Keeps.holding (h : state.Keeps live) {left : List Nat}
    (howns : ∃ blocks chains, heap.Owns left blocks chains) :
    (state.holding heap).Keeps left := by
  obtain ⟨blocks, chains, howns⟩ := howns
  obtain ⟨region, hbacked⟩ := h.backed
  exact ⟨⟨region, hbacked.reserve_eq, hbacked.base_mod, hbacked.addressable⟩,
    .inr ⟨heap, blocks, chains, rfl, howns⟩⟩

/-- What the system permits has no part in what the heap is. -/
theorem Keeps.under (h : state.Keeps live) (permits : Nat → Nat → Bool) :
    (state.under permits).Keeps live := by
  obtain ⟨region, hbacked⟩ := h.backed
  refine ⟨⟨_, ReservedRegion.reserve_permits hbacked.reserve_eq permits, hbacked.base_mod,
    hbacked.addressable⟩, ?_⟩
  rcases h.owns with ⟨hnone, hlive⟩ | ⟨heap, blocks, chains, hheap, howns⟩
  · exact .inl ⟨congrArg (Option.map _) hnone, hlive⟩
  · obtain ⟨horderly, hbase, hlen, hmod, hroom, hspace⟩ := howns.sound
    exact .inr ⟨_, blocks, chains, congrArg (Option.map _) hheap,
      ⟨horderly, hbase, hlen, hmod, hroom, hspace⟩, howns.perm⟩

/-- A valid call by layout is answered as promised, whether or not there was a heap before it. It is
    refused only if there was none and none can be built. -/
theorem Keeps.layout_spec (h : state.Keeps live) (hvalid : state.OnHeap (call.Valid · live))
    (log : Array Event) :
    (state.heap = none ∧ live = [] ∧ call.given? = none ∧
      ∃ log', state.construct.run log = .ok none log' ∧
        call.run.runOn state log = .ok (none, state) log') ∨
    ∃ answer log' before heap, (state.heap = some before ∨ state.heap = none ∧ live = []) ∧
      call.run.runOn state log = .ok (answer, state.holding heap) log' ∧
      before.Fulfils live call answer heap ∧
      ∃ blocks chains, heap.Owns (call.live answer live) blocks chains := by
  rcases h.owns with ⟨hnone, rfl⟩ | ⟨before, blocks, chains, hheap, howns⟩
  · obtain ⟨region, hbacked⟩ := h.backed
    obtain ⟨built, log₁, hbuild, hbuilt⟩ := hbacked.construct_spec log
    have hvalids := hvalid.of_none hnone
    have hgiven : call.given? = none := by
      refine Option.eq_none_iff_forall_not_mem.2 fun old hold => ?_
      exact absurd ((hvalids (empty state.build region {})).live old hold) List.not_mem_nil
    cases built with
    | none =>
      exact .inl ⟨hnone, rfl, hgiven, log₁, hbuild,
        LayoutCall.run_of_refused hgiven hnone hbuild⟩
    | some before =>
      obtain ⟨blocks, chains, howns⟩ := hbuilt before rfl
      obtain ⟨answer, heap, log', hrun, hfulfils, hafter⟩ :=
        howns.serve_spec (hvalids before) log₁
      refine .inr ⟨answer, log', before, heap, .inr ⟨hnone, rfl⟩, ?_, hfulfils, hafter⟩
      rw [LayoutCall.run_of_none hgiven hnone hbuild, LayoutCall.run_holding hrun]
  · obtain ⟨answer, heap, log', hrun, hfulfils, hafter⟩ :=
      howns.serve_spec (hvalid.of_some hheap) log
    refine .inr ⟨answer, log', before, heap, .inl hheap, ?_, hfulfils, hafter⟩
    have hsame := LayoutCall.run_holding hrun state
    rwa [holding_eq hheap] at hsame

/-- A valid use leads from one such state to another. -/
theorem Keeps.use_spec (h : state.Keeps live) (hvalid : state.OnHeap (use.Valid · live))
    (log : Array Event) :
    ∃ answer after log', use.runLazy.runOn state log = .ok (answer, after) log' ∧
      after.Keeps (use.live answer live) := by
  rcases h.owns with ⟨hnone, rfl⟩ | ⟨before, blocks, chains, hheap, howns⟩
  · obtain ⟨region, hbacked⟩ := h.backed
    obtain ⟨built, log₁, hbuild, hbuilt⟩ := hbacked.construct_spec log
    have hvalids := hvalid.of_none hnone
    cases hbuilds : use.builds with
    | true =>
      cases built with
      | none =>
        refine ⟨.address none, state, log₁, Use.runLazy_of_refused hbuilds hnone hbuild, ?_⟩
        rw [use.live_refused]
        exact h
      | some before =>
        obtain ⟨blocks, chains, howns⟩ := hbuilt before rfl
        obtain ⟨answer, heap, log', hrun, hafter⟩ := howns.use_spec (hvalids before) log₁
        refine ⟨answer, state.holding heap, log', ?_, h.holding hafter⟩
        rw [Use.runLazy_of_builds hbuilds hnone hbuild, Use.runLazy_holding hrun]
    | false =>
      have hrun := Use.runLazy_of_idle (hvalids (empty state.build region {})) hbuilds hnone log
      refine ⟨_, state, log, hrun, ?_⟩
      rw [use.live_early, use.live_refused]
      exact h
  · obtain ⟨answer, heap, log', hrun, hafter⟩ := howns.use_spec (hvalid.of_some hheap) log
    refine ⟨answer, state.holding heap, log', ?_, h.holding hafter⟩
    have hsame := Use.runLazy_holding hrun state
    rwa [holding_eq hheap] at hsame

theorem Reachable.keeps (h : start.Reachable state live) (hbacked : start.Backed region)
    (hstart : start.heap = none) : state.Keeps live := by
  induction h with
  | start => exact ⟨⟨region, hbacked⟩, .inl ⟨hstart, rfl⟩⟩
  | @use state after live use answer log log' _ hvalid hrun ih =>
    obtain ⟨_, _, _, hruns, hafter⟩ := ih.use_spec hvalid log
    rw [hrun] at hruns
    cases hruns
    exact hafter
  | @layout state after live call answer log log' _ hvalid hrun ih =>
    rcases ih.layout_spec hvalid log with
      ⟨-, rfl, hgiven, _, -, hruns⟩ | ⟨_, _, _, heap, -, hruns, -, hafter⟩
    · rw [hrun] at hruns
      cases hruns
      rw [LayoutCall.live_refused hgiven]
      exact ih
    · rw [hrun] at hruns
      cases hruns
      exact ih.holding hafter
  | system permits _ ih => exact ih.under permits

end LazyHeap

/-- In whatever state a program may be, a valid call by layout is answered as promised, if the
    system lets the heap use its pages. -/
theorem fulfils_of_reachable {start state : LazyHeap} {region : ReservedRegion} {live : List Nat}
    (hbacked : start.Backed region) (hstart : start.heap = none) (h : start.Reachable state live)
    (hobliging : state.Obliging) {call : LayoutCall} (hvalid : state.OnHeap (call.Valid · live))
    (log : Array Event) :
    ∃ answer after log' before heap, call.run.runOn state log = .ok (answer, after) log' ∧
      (state.heap = some before ∨ state.heap = none ∧ live = []) ∧ after.heap = some heap ∧
      before.Fulfils live call answer heap := by
  have hkeeps := h.keeps hbacked hstart
  rcases hkeeps.layout_spec hvalid log with
    ⟨-, -, -, _, hrefused, -⟩ | ⟨answer, log', before, heap, hbefore, hrun, hfulfils, -⟩
  · obtain ⟨region, hbacked⟩ := hkeeps.backed
    obtain ⟨_, _, -, hbuild, -⟩ := hbacked.exists_construct hobliging log
    rw [hrefused] at hbuild
    cases hbuild
  · exact ⟨answer, state.holding heap, log', before, heap, hrun, hbefore, rfl, hfulfils⟩

theorem valid_sampleAllocation :
    sampleLazy.OnHeap (LayoutCall.Valid · [] (.allocate ⟨100, 512⟩)) := fun _ =>
  ⟨show IsPowerOfTwo 512 by decide, by decide, fun _ => by decide, nofun, nofun⟩

theorem run_sampleAllocation : ∃ heap log,
    (LayoutCall.allocate ⟨100, 512⟩).run.runOn sampleLazy #[] =
      .ok (some 1049088, sampleLazy.holding heap) log ∧
    ∃ usable, heap.pool.usableSize 1049088 = .ok usable ∧ 100 ≤ usable := by
  have hanswer : (LayoutCall.allocate ⟨100, 512⟩).run.answerOn sampleLazy #[] =
      some (some 1049088) := by
    decide +kernel
  have hkeeps := Reachable.start.keeps backed_sampleReservation rfl
  rcases hkeeps.layout_spec valid_sampleAllocation #[] with
    ⟨-, -, -, _, -, hrefused⟩ | ⟨answer, log, _, heap, -, hrun, hfulfils, -⟩
  · rw [LazyHeapM.answerOn_of_runOn hrefused] at hanswer
    cases hanswer
  · obtain rfl : answer = some 1049088 :=
      Option.some.inj ((LazyHeapM.answerOn_of_runOn hrun).symm.trans hanswer)
    exact ⟨heap, log, hrun, hfulfils.large _ rfl⟩

/-- Memory at a multiple of 512 is asked for first, and then it is moved. -/
theorem fulfils_after_sampleAllocation : ∃ before log,
    sampleLazy.Reachable (sampleLazy.holding before) [1049088] ∧
    ∃ after log' heap,
      (LayoutCall.resize 1049088 ⟨100, 512⟩ 5000).run.runOn (sampleLazy.holding before) log =
        .ok (some 1049600, after) log' ∧
      after.heap = some heap ∧
      before.Fulfils [1049088] (.resize 1049088 ⟨100, 512⟩ 5000) (some 1049600) heap := by
  have hbacked := backed_sampleReservation
  obtain ⟨heap, log, hrun, hlarge⟩ := run_sampleAllocation
  have hstate : sampleLazy.Reachable (sampleLazy.holding heap) [1049088] :=
    .layout .start valid_sampleAllocation hrun
  have hvalid : LayoutCall.Valid heap [1049088] (.resize 1049088 ⟨100, 512⟩ 5000) := by
    refine ⟨show IsPowerOfTwo 512 by decide, by decide, fun _ => by decide, ?_, ?_⟩
    · rintro _ ⟨⟩
      exact List.mem_singleton.2 rfl
    · rintro _ ⟨⟩
      exact hlarge
  obtain ⟨answer, after, log', before, last, hresize, hbefore, hafter, hmoved⟩ :=
    fulfils_of_reachable hbacked rfl hstate (fun _ _ => rfl) hvalid log
  have hanswer : ((LayoutCall.allocate ⟨100, 512⟩).run >>= fun _ =>
      (LayoutCall.resize 1049088 ⟨100, 512⟩ 5000).run).answerOn sampleLazy #[] =
      some (some 1049600) := by
    decide +kernel
  rw [LazyHeapM.answerOn_bind hrun, LazyHeapM.answerOn_of_runOn hresize] at hanswer
  cases hanswer
  obtain rfl : heap = before := Option.some.inj (hbefore.resolve_right nofun)
  exact ⟨heap, log, hstate, after, log', last, hresize, hafter, hmoved⟩

end BoundaryTag
