import BoundaryTag.Proofs.Pool.Walk
import BoundaryTag.Proofs.Run.Step

namespace BoundaryTag

namespace Heap

variable {ρ : Type} [Region ρ]

/-- The blocks in use are those at the addresses `live`, and no others. -/
def InUseAt (heap : Heap ρ) (live : List Nat) : Prop :=
  ∃ blocks, heap.pool.blocks = .ok blocks ∧ (heap.addresses (held blocks)).Perm live

variable [GrowsInPlace ρ]

/-- A request answers, and if it is refused, the pool is what it was, with every word of its arena
    and every head of its lists, and so is the span of the region. -/
def AllOrNothing (heap : Heap ρ) (request : RequestM ρ Nat) : Prop :=
  ∀ log, ∃ answer after log', request.runOn heap log = .ok (answer, after) log' ∧
    ∀ error, answer = .error error → heap.Refuses after

variable {heap after : Heap ρ} {live : List Nat} {blocks : List BlockInfo} {chains : Chains}

theorem Owns.inUseAt (h : heap.Owns live blocks chains) : heap.InUseAt live :=
  ⟨blocks, Pool.blocks_eq h.sound.orderly.represents.laid, h.perm⟩

theorem Refuses.inUseAt (h : heap.Refuses after) (howns : heap.Owns live blocks chains) :
    after.InUseAt live := by
  obtain ⟨_, _, hafter, -⟩ := h.continues howns
  exact hafter.inUseAt

theorem allOrNothing_of_spec {request : RequestM ρ Nat}
    (h : ∀ log, (∃ error after log', request.runOn heap log = .ok (.error error, after) log' ∧
        heap.Refuses after) ∨
      ∃ address after log', request.runOn heap log = .ok (.ok address, after) log') :
    heap.AllOrNothing request := by
  intro log
  rcases h log with ⟨error, after, log', hrun, hrefuses⟩ | ⟨address, after, log', hrun⟩
  · exact ⟨_, after, log', hrun, fun _ _ => hrefuses⟩
  · exact ⟨_, after, log', hrun, nofun⟩

/-- Resizing that gets no memory leaves the old block in use. -/
theorem Owns.resize_refused (h : heap.Owns live blocks chains) {given : Option Nat}
    (hgiven : ∀ address ∈ given, address ∈ live) {size : Nat} (hsize : size ≠ 0)
    (log : Array Event) :
    ∃ answer after log', (resize given size).runOn heap log = .ok (answer, after) log' ∧
      (answer = none → heap.Refuses after ∧ after.InUseAt live) := by
  cases given with
  | none =>
    rcases h.sound.request_spec size log with
      ⟨error, after, log', hrun, hrefuses⟩ | ⟨_, info, after, log', -, hrun, -⟩
    · refine ⟨none, after, log', ?_, fun _ => ⟨hrefuses, hrefuses.inUseAt h⟩⟩
      change (request size).granted.runOn heap log = _
      rw [RequestM.runOn_granted, hrun]
      rfl
    · refine ⟨some (after.pool.arena.address info.block), after, log', ?_, nofun⟩
      change (request size).granted.runOn heap log = _
      rw [RequestM.runOn_granted, hrun]
      rfl
  | some address =>
    obtain ⟨info, kept, hheld, rfl, -⟩ := h.exists_info (hgiven address rfl)
    obtain ⟨answer, after, log', hrun, hcases⟩ := h.sound.resize_spec hheld size log
    refine ⟨answer, after, log', hrun, ?_⟩
    rcases hcases with ⟨-, -, hrefuses⟩ | ⟨-, hzero, -⟩ | ⟨fresh, rfl, -⟩
    · exact fun _ => ⟨hrefuses, hrefuses.inUseAt h⟩
    · exact absurd hzero hsize
    · exact nofun

end Heap

section Runs

variable {ρ : Type} [Region ρ] [GrowsInPlace ρ] {build : Build} {region : ρ} {heap : Heap ρ}
  {live : List Nat}

/-- A request that is refused, and a resizing that gets no memory, change nothing. An aligned
    request is granted once a block was taken for it, and its block is then the only new one in
    use. -/
theorem unchanged_of_reachable (h : Reachable build region heap live) :
    (∀ size, heap.AllOrNothing (Heap.request size)) ∧
    (∀ count size, heap.AllOrNothing (Heap.requestZeroed count size)) ∧
    (∀ align size, heap.AllOrNothing (Heap.requestAligned align size)) ∧
    (∀ given size log, (∀ address ∈ given, address ∈ live) → size ≠ 0 →
      ∃ answer after log', (Heap.resize given size).runOn heap log = .ok (answer, after) log' ∧
        (answer = none → heap.Refuses after ∧ after.InUseAt live)) ∧
    ∀ align size needed block middle log log', IsPowerOfTwo align → alignment < align →
      blockSize size = .ok needed →
      (Heap.takeBlock (needed + align + smallestBlock - tagBytes)).runOn heap log =
        .ok (.ok block, middle) log' →
      ∃ address after,
        (Heap.requestAligned align size).runOn heap log = .ok (.ok address, after) log' ∧
        after.InUseAt (address :: live) := by
  obtain ⟨blocks, chains, howns⟩ := h.owns
  refine ⟨fun size => ?_, fun count size => ?_, fun align size => ?_,
    fun given size log hgiven hsize => howns.resize_refused hgiven hsize log,
    fun align size needed block middle log log' hpower hlarge hneeded htake => ?_⟩
  · refine Heap.allOrNothing_of_spec fun log => (howns.sound.request_spec size log).imp_right ?_
    rintro ⟨_, _, after, log', -, hrun, -⟩
    exact ⟨_, after, log', hrun⟩
  · refine Heap.allOrNothing_of_spec fun log =>
      (howns.sound.requestZeroed_spec count size log).imp_right ?_
    rintro ⟨_, _, after, log', -, hrun, -⟩
    exact ⟨_, after, log', hrun⟩
  · refine Heap.allOrNothing_of_spec fun log =>
      (howns.sound.requestAligned_spec align size log).imp_right ?_
    rintro ⟨_, _, after, log', -, hrun, -⟩
    exact ⟨_, after, log', hrun⟩
  · obtain ⟨info, after, hrun, hgrants, -⟩ :=
      howns.sound.requestAligned_of_takeBlock hpower hlarge hneeded htake
    obtain ⟨_, _, hafter, -⟩ := hgrants.continues howns.perm
    exact ⟨_, after, hrun, hafter.inUseAt⟩

/-- The third growth of the sample region, and any beyond its capacity, is refused. -/
theorem unchanged_after_sampleCalls : ∃ heap,
    replay .checked sampleRegion sampleCalls = some (heap, [66112, 66048, 65696]) ∧
    (∃ error after log', (Heap.request 20000).runOn heap #[] = .ok (.error error, after) log' ∧
      heap.Refuses after) ∧
    (∃ after log', (Heap.resize (some 66048) 20000).runOn heap #[] = .ok (none, after) log' ∧
      heap.Refuses after ∧ after.InUseAt [66112, 66048, 65696]) ∧
    ∃ address after log', (Heap.requestAligned 256 40).runOn heap #[] =
        .ok (.ok address, after) log' ∧
      after.InUseAt [address, 66112, 66048, 65696] := by
  have heval : (replay .checked sampleRegion sampleCalls).map (fun state => (state.2,
      (Heap.request 20000).granted.answerOn state.1,
      (Heap.resize (some 66048) 20000).answerOn state.1,
      ((Heap.takeBlock 336).granted.answerOn state.1).map Option.isSome)) =
      some ([66112, 66048, 65696], some none, some none, some true) := by
    decide +kernel
  obtain ⟨heap, hreplay, hstate⟩ := exists_of_replay heval
  simp only [Prod.mk.injEq] at hstate
  obtain ⟨hrequest, hresize, htake⟩ := hstate
  obtain ⟨hrequests, -, -, hresizings, haligned⟩ :=
    unchanged_of_reachable (reachable_of_replay hreplay)
  refine ⟨heap, hreplay, ?_, ?_, ?_⟩
  · obtain ⟨answer, after, log', hrun, hrefuses⟩ := hrequests 20000 #[]
    rw [HeapM.answerOn, RequestM.runOn_granted, hrun] at hrequest
    cases answer with
    | error error => exact ⟨error, after, log', hrun, hrefuses error rfl⟩
    | ok address => cases hrequest
  · have hlive : ∀ address ∈ some 66048, address ∈ [66112, 66048, 65696] := by
      rintro _ ⟨⟩
      decide
    obtain ⟨answer, after, log', hrun, hrefuses⟩ :=
      hresizings (some 66048) 20000 #[] hlive (by decide)
    rw [HeapM.answerOn, hrun] at hresize
    cases hresize
    exact ⟨after, log', hrun, hrefuses rfl⟩
  · obtain ⟨taken, htaken, hsome⟩ := Option.map_eq_some_iff.1 htake
    obtain ⟨middle, log, hrun⟩ := HeapM.answerOn_eq_some.1 htaken
    rw [RequestM.runOn_granted] at hrun
    cases hanswer : (Heap.takeBlock 336).runOn heap #[] with
    | error fault log => simp [hanswer] at hrun
    | ok state log =>
      obtain ⟨answer | block, middle⟩ := state
      · rw [hanswer] at hrun
        cases hrun
        cases hsome
      · obtain ⟨address, after, hgranted, hinUse⟩ :=
          haligned 256 40 64 block middle #[] log (by decide) (by decide) rfl hanswer
        exact ⟨address, after, log, hgranted, hinUse⟩

end Runs

end BoundaryTag
