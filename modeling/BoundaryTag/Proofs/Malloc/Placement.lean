import BoundaryTag.Proofs.LazyHeap.Contract

namespace BoundaryTag

namespace Heap

variable {ρ : Type} [Region ρ] [GrowsInPlace ρ] [KeepsOnRefusal ρ] {heap after : Heap ρ}
  {blocks : List BlockInfo} {chains : Chains} {align size : Nat} {log log' : Array Event}

theorem Sound.allocateAligned_keeps (h : heap.Sound blocks chains)
    (hrun : (allocateAligned align size).runOn heap log = .ok (none, after) log') :
    after = heap := by
  obtain ⟨verdict, hrequest, hnone⟩ := HeapM.exists_of_runOn_granted hrun
  cases verdict with
  | error error => exact h.requestAligned_keeps hrequest
  | ok address => cases hnone

end Heap

namespace Malloc

open LazyHeap

/-- The alignments that memory may be asked for. -/
def Allows (align : Nat) : Prop := IsPowerOfTwo align ∧ align % wordBytes = 0

/-- What is said of an answer to a request for memory: an address is stored, and where there is
    none, nothing is. -/
def Placement.ofAnswer : Option Nat → Placement
  | some address => { code := 0, stored := some (some address) }
  | none => { code := outOfMemory }

/-- What comes of a request for `size` bytes at a multiple of `align`, in a state that has a heap
    with memory in use at the addresses `live`. -/
structure Places (state : LazyHeap) (live : List Nat) (align size : Nat) (log : Array Event)
    (placement : Placement) (after : LazyHeap) (log' : Array Event) : Prop where
  invalid_iff : placement.code = invalidArgument ↔ ¬ Allows align
  invalid : ¬ Allows align → placement.stored = none ∧ after = state
  empty : Allows align → size = 0 →
    placement = { code := 0, stored := some none } ∧ after = state
  served : Allows align → size ≠ 0 → ∃ answer,
    (memalign align size).runOn state log = .ok (answer, after) log' ∧
    placement = .ofAnswer answer
  refused : placement.code = outOfMemory → placement.stored = none ∧ after = state
  placed : ∀ address, placement.stored = some (some address) → placement.code = 0 ∧
    address % align = 0 ∧ address % 16 = 0 ∧
    ∃ before heap, state.heap = some before ∧ after.heap = some heap ∧
      before.Fulfils live (.allocate ⟨size, align⟩) (some address) heap

variable {state after : LazyHeap} {heap : Heap ReservedRegion} {live : List Nat}
  {align size : Nat} {answer : Option Nat} {log log' : Array Event}

theorem runOn_posixMemalign_of_not (hnot : ¬ Allows align) (size : Nat) (state : LazyHeap)
    (log : Array Event) :
    (posixMemalign align size).runOn state log =
      .ok ({ code := invalidArgument }, state) log := by
  have hargument : ¬ IsPowerOfTwo align ∨ align % wordBytes ≠ 0 := by
    rwa [Allows, not_and_or] at hnot
  rw [posixMemalign, if_pos hargument, LazyHeapM.runOn_pure]

theorem posixMemalign_of_allows (hallows : Allows align) (size : Nat) :
    posixMemalign align size =
      if size = 0 then pure { code := 0, stored := some none }
      else Placement.ofAnswer <$> memalign align size := by
  have hargument : ¬ (¬ IsPowerOfTwo align ∨ align % wordBytes ≠ 0) := by
    rwa [← not_and_or, not_not]
  rw [posixMemalign, if_neg hargument, ← bind_pure_comp]
  refine congrArg (ite _ _) (congrArg (bind _) (funext fun answer => ?_))
  cases answer <;> rfl

theorem places_of_not_allows (hnot : ¬ Allows align) (state : LazyHeap) (live : List Nat)
    (size : Nat) (log : Array Event) :
    Places state live align size log { code := invalidArgument } state log where
  invalid_iff := ⟨fun _ => hnot, fun _ => rfl⟩
  invalid _ := ⟨rfl, rfl⟩
  empty hallows := absurd hallows hnot
  served hallows := absurd hallows hnot
  refused := nofun
  placed := nofun

theorem places_of_no_bytes (hallows : Allows align) (state : LazyHeap) (live : List Nat)
    (log : Array Event) :
    Places state live align 0 log { code := 0, stored := some none } state log where
  invalid_iff := ⟨nofun, absurd hallows⟩
  invalid := absurd hallows
  empty _ _ := ⟨rfl, rfl⟩
  served _ := absurd rfl
  refused := nofun
  placed := nofun

/-- What `memalign` answers, it answers beside the memory in use, and a refusal leaves the state as
    it was. -/
structure Supplies (state : LazyHeap) (heap : Heap ReservedRegion) (live : List Nat)
    (align size : Nat) (answer : Option Nat) (after : LazyHeap) : Prop where
  unchanged : answer = none → after = state
  aligned : ∀ address, answer = some address → address % align = 0 ∧ address % 16 = 0
  fulfils : ∀ address, answer = some address → ∃ last, after.heap = some last ∧
    heap.Fulfils live (.allocate ⟨size, align⟩) (some address) last

theorem memalign_supplies (hheap : state.heap = some heap) {blocks : List BlockInfo}
    {chains : Chains} (h : heap.Owns live blocks chains) (align size : Nat) (log : Array Event) :
    ∃ answer after log', (memalign align size).runOn state log = .ok (answer, after) log' ∧
      Supplies state heap live align size answer after := by
  obtain ⟨answer, last, log', hrun, hfulfils, infos, links, hlast⟩ :=
    h.allocateAligned_fulfils align size log
  have hmemalign : (memalign align size).runOn (state.holding heap) log =
      .ok (answer, state.holding last) log' := runOn_onBuilt_join hrun state
  rw [holding_eq hheap] at hmemalign
  refine ⟨answer, state.holding last, log', hmemalign, ?_, ?_, ?_⟩
  · rintro rfl
    rw [h.sound.allocateAligned_keeps hrun, holding_eq hheap]
  · rintro address rfl
    obtain ⟨info, hinfo, rfl⟩ := hlast.exists_held List.mem_cons_self
    exact ⟨hfulfils.aligned _ rfl, hlast.sound.address_mod (mem_held.1 hinfo).1⟩
  · rintro address rfl
    exact ⟨last, rfl, hfulfils⟩

theorem places_of_supplies (hallows : Allows align) (hsize : size ≠ 0)
    (hheap : state.heap = some heap)
    (hrun : (memalign align size).runOn state log = .ok (answer, after) log')
    (h : Supplies state heap live align size answer after) :
    Places state live align size log (.ofAnswer answer) after log' := by
  refine ⟨⟨fun hcode => ?_, absurd hallows⟩, absurd hallows, fun _ hzero => absurd hzero hsize,
    fun _ _ => ⟨answer, hrun, rfl⟩, fun hcode => ?_, fun address hstored => ?_⟩
  · cases answer <;> cases hcode
  · cases answer with
    | none => exact ⟨rfl, h.unchanged rfl⟩
    | some found => cases hcode
  · cases answer with
    | none => cases hstored
    | some found =>
      cases hstored
      obtain ⟨haligned, hmod⟩ := h.aligned address rfl
      obtain ⟨last, hlast, hfulfils⟩ := h.fulfils address rfl
      exact ⟨rfl, haligned, hmod, heap, last, hheap, hlast, hfulfils⟩

/-- Whatever a program asks for, and whatever the system permits, it is told why it does not get it,
    or gets memory beside all that it has. Only then does anything change. -/
theorem posixMemalign_of_reachable {start : LazyHeap} {region : ReservedRegion}
    (hbacked : start.Backed region) (hstart : start.heap = none) (h : start.Reachable state live)
    (hheap : state.heap = some heap) (align size : Nat) (log : Array Event) :
    ∃ placement after log',
      (posixMemalign align size).runOn state log = .ok (placement, after) log' ∧
      Places state live align size log placement after log' := by
  by_cases hallows : Allows align
  · rw [posixMemalign_of_allows hallows]
    by_cases hsize : size = 0
    · subst hsize
      exact ⟨_, state, log, LazyHeapM.runOn_pure .., places_of_no_bytes hallows state live log⟩
    · obtain ⟨blocks, chains, howns⟩ := (h.keeps hbacked hstart).owns_of_some hheap
      obtain ⟨answer, after, log', hrun, hsupplies⟩ := memalign_supplies hheap howns align size log
      refine ⟨.ofAnswer answer, after, log', ?_,
        places_of_supplies hallows hsize hheap hrun hsupplies⟩
      rw [if_neg hsize, LazyHeapM.runOn_map, hrun]
  · exact ⟨_, state, log, runOn_posixMemalign_of_not hallows size state log,
      places_of_not_allows hallows state live size log⟩

/-- A page is asked for where memory at a multiple of 512 is in use, and then more than the arena
    has room for, when the system does not permit it to grow. -/
theorem posixMemalign_after_sampleAllocation : ∃ heap log,
    sampleLazy.Reachable (sampleLazy.holding heap) [1049088] ∧
    (∃ after log', (posixMemalign 4096 10).runOn (sampleLazy.holding heap) log =
        .ok ({ code := 0, stored := some (some 1052672) }, after) log' ∧
      Places (sampleLazy.holding heap) [1049088] 4096 10 log
        { code := 0, stored := some (some 1052672) } after log') ∧
    ∃ log', (posixMemalign 4096 20000).runOn
        ((sampleLazy.holding heap).under fun _ _ => false) log =
        .ok ({ code := 12 }, (sampleLazy.holding heap).under fun _ _ => false) log' ∧
      Places ((sampleLazy.holding heap).under fun _ _ => false) [1049088] 4096 20000 log
        { code := 12 } ((sampleLazy.holding heap).under fun _ _ => false) log' := by
  have hbacked := backed_sampleReservation
  obtain ⟨heap, log, hrun, -⟩ := run_sampleAllocation
  have hstate : sampleLazy.Reachable (sampleLazy.holding heap) [1049088] :=
    .layout .start valid_sampleAllocation hrun
  refine ⟨heap, log, hstate, ?_, ?_⟩
  · obtain ⟨placement, after, log', hplacement, hplaces⟩ :=
      posixMemalign_of_reachable hbacked rfl hstate rfl 4096 10 log
    have hanswer : ((LayoutCall.allocate ⟨100, 512⟩).run >>= fun _ =>
        posixMemalign 4096 10).answerOn sampleLazy #[] =
        some { code := 0, stored := some (some 1052672) } := by
      decide +kernel
    rw [LazyHeapM.answerOn_bind hrun, LazyHeapM.answerOn_of_runOn hplacement] at hanswer
    cases hanswer
    exact ⟨after, log', hplacement, hplaces⟩
  · obtain ⟨placement, after, log', hplacement, hplaces⟩ :=
      posixMemalign_of_reachable hbacked rfl (hstate.system fun _ _ => false) rfl 4096 20000 log
    have hanswer : ((LayoutCall.allocate ⟨100, 512⟩).run >>= fun _ =>
        modify (·.under fun _ _ => false) >>= fun _ =>
        posixMemalign 4096 20000).answerOn sampleLazy #[] = some { code := 12 } := by
      decide +kernel
    rw [LazyHeapM.answerOn_bind hrun, LazyHeapM.answerOn_bind (by rfl),
      LazyHeapM.answerOn_of_runOn hplacement] at hanswer
    cases hanswer
    obtain rfl := (hplaces.refused rfl).2
    exact ⟨log', hplacement, hplaces⟩

end Malloc

end BoundaryTag
