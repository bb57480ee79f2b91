import BoundaryTag.Proofs.FreeList.Edits
import BoundaryTag.Proofs.Run.Step

namespace BoundaryTag

/-- The size of the block that a call searches for, if it searches for one. -/
def Call.sought? : Call → Option Nat
  | allocate size | resize _ size => (blockSize size).toOption
  | allocateZeroed count size => (blockSize (count * size)).toOption
  | allocateAligned align size =>
    if align ≤ alignment then (blockSize size).toOption
    else (blockSize size).toOption.bind fun needed =>
      (blockSize (needed + align + smallestBlock - tagBytes)).toOption
  | release _ | write .. => none

namespace Heap

variable {ρ : Type}

/-- The arena is as long as before, unless a search for `sought` bytes found nothing. -/
def GrowsFor (heap after : Heap ρ) (sought : Option Nat) : Prop :=
  after.pool.arena.len ≠ heap.pool.arena.len → ∃ needed ∈ sought, heap.pool.fit? needed = .ok none

variable {heap middle after : Heap ρ} {sought : Option Nat} {found : Option Block} {needed : Nat}

theorem growsFor_of_len_eq (hlen : after.pool.arena.len = heap.pool.arena.len)
    (sought : Option Nat) : heap.GrowsFor after sought :=
  fun hne => absurd hlen hne

theorem growsFor_of_search (hfit : heap.pool.fit? needed = .ok found)
    (hlen : after.pool.arena.len = heap.pool.arena.len + bytesToGrow needed found) :
    heap.GrowsFor after (some needed) := by
  cases found with
  | some block => exact growsFor_of_len_eq hlen _
  | none => exact fun _ => ⟨needed, rfl, hfit⟩

theorem GrowsFor.of_len_eq (h : heap.GrowsFor middle sought)
    (hlen : after.pool.arena.len = middle.pool.arena.len) : heap.GrowsFor after sought :=
  fun hne => h (hlen ▸ hne)

variable [Region ρ] [GrowsInPlace ρ] {live : List Nat} {blocks : List BlockInfo} {chains : Chains}
  {log log' : Array Event}

theorem Refuses.growsFor (h : heap.Refuses after) (sought : Option Nat) :
    heap.GrowsFor after sought :=
  growsFor_of_len_eq (by rw [h.pool_eq]) sought

theorem Sound.request_growsFor (h : heap.Sound blocks chains) {size : Nat}
    {answer : Except HeapError Nat}
    (hrun : (request size).runOn heap log = .ok (answer, after) log') :
    heap.GrowsFor after (blockSize size).toOption := by
  rcases h.request_takes size log with
    ⟨error, after, log', hrequest, hrefuses⟩ |
    ⟨needed, found, whole, after, log', hneeded, hrequest, htakes⟩
  · rw [hrequest] at hrun
    cases hrun
    exact hrefuses.growsFor _
  · rw [hrequest] at hrun
    cases hrun
    rw [hneeded]
    exact growsFor_of_search htakes.search_eq htakes.len_eq

theorem Sound.requestZeroed_growsFor (h : heap.Sound blocks chains) {count size : Nat}
    {answer : Except HeapError Nat}
    (hrun : (requestZeroed count size).runOn heap log = .ok (answer, after) log') :
    heap.GrowsFor after (blockSize (count * size)).toOption := by
  by_cases hbig : UInt64.size ≤ count * size
  · rw [runOn_requestZeroed_of_overflow hbig] at hrun
    cases hrun
    exact growsFor_of_len_eq rfl _
  · rw [runOn_requestZeroed_of_lt hbig] at hrun
    cases hrequest : (request (count * size)).runOn heap log with
    | error fault log₁ =>
      rw [hrequest] at hrun
      cases hrun
    | ok state log₁ =>
      have hgrows := h.request_growsFor hrequest
      rw [hrequest] at hrun
      obtain ⟨answer | address, middle⟩ := state <;>
      · cases hrun
        exact hgrows.of_len_eq rfl

theorem Sound.requestAligned_growsFor (h : heap.Sound blocks chains) {align size : Nat}
    {answer : Except HeapError Nat}
    (hrun : (requestAligned align size).runOn heap log = .ok (answer, after) log') :
    heap.GrowsFor after (Call.allocateAligned align size).sought? := by
  by_cases hpower : IsPowerOfTwo align
  · by_cases hsmall : align ≤ alignment
    · rw [requestAligned_of_le hpower hsmall] at hrun
      rw [Call.sought?, if_pos hsmall]
      exact h.request_growsFor hrun
    · have hlarge := Nat.lt_of_not_le hsmall
      rw [Call.sought?, if_neg hsmall]
      rcases h.requestAligned_of_lt hpower hlarge size log with
        ⟨error, after, log', hrequest, hrefuses⟩ | ⟨needed, block, middle, log₁, hneeded, htake⟩
      · rw [hrequest] at hrun
        cases hrun
        exact hrefuses.growsFor _
      · obtain ⟨sought, found, whole, taken, last, before, behind, hsought, hrequest, hplaces, -⟩ :=
          h.requestAligned_places hpower hlarge hneeded htake
        rw [hrequest] at hrun
        cases hrun
        rw [hneeded, Except.toOption, Option.bind_some, hsought]
        exact growsFor_of_search hplaces.search_eq hplaces.exchanges.len_eq
  · rw [runOn_requestAligned_of_not hpower] at hrun
    cases hrun
    exact growsFor_of_len_eq rfl _

theorem Owns.resize_growsFor (h : heap.Owns live blocks chains) {given answer : Option Nat}
    {size : Nat} (hgiven : ∀ address ∈ given, address ∈ live)
    (hrun : (resize given size).runOn heap log = .ok (answer, after) log') :
    heap.GrowsFor after (blockSize size).toOption := by
  cases given with
  | none =>
    obtain ⟨verdict, hrequest, -⟩ := HeapM.exists_of_runOn_granted hrun
    exact h.sound.request_growsFor hrequest
  | some address =>
    obtain ⟨info, kept, hheld, rfl, -⟩ := h.exists_info (hgiven address rfl)
    obtain ⟨answer, after, log₁, hresize, hcases⟩ := h.sound.resize_spec hheld size log
    rw [hresize] at hrun
    cases hrun
    rcases hcases with
      ⟨-, -, hrefuses⟩ | ⟨-, -, hfrees⟩ | ⟨fresh, -, -, -, -, -, new, middle, hallocate, hlen⟩
    · exact hrefuses.growsFor _
    · exact growsFor_of_len_eq hfrees.len_eq _
    · obtain ⟨verdict, hrequest, -⟩ := HeapM.exists_of_runOn_granted hallocate
      exact (h.sound.request_growsFor hrequest).of_len_eq hlen

/-- No call grows the arena but for the block that it searches for. -/
theorem Owns.call_growsFor (h : heap.Owns live blocks chains) {call : Call}
    (hvalid : call.Valid heap live) {answer : Option Nat}
    (hrun : call.run.runOn heap log = .ok (answer, after) log') :
    heap.GrowsFor after call.sought? := by
  cases call with
  | allocate size =>
    obtain ⟨verdict, hrequest, -⟩ := HeapM.exists_of_runOn_granted hrun
    exact h.sound.request_growsFor hrequest
  | allocateZeroed count size =>
    obtain ⟨verdict, hrequest, -⟩ := HeapM.exists_of_runOn_granted hrun
    exact h.sound.requestZeroed_growsFor hrequest
  | allocateAligned align size =>
    obtain ⟨verdict, hrequest, -⟩ := HeapM.exists_of_runOn_granted hrun
    exact h.sound.requestAligned_growsFor hrequest
  | resize given size => exact h.resize_growsFor hvalid.1 hrun
  | release given =>
    cases given with
    | none =>
      simp only [Call.run, release, HeapM.runOn_bind, HeapM.runOn_pure] at hrun
      cases hrun
      exact growsFor_of_len_eq rfl _
    | some address =>
      obtain ⟨info, kept, hheld, rfl, -⟩ := h.exists_info (hvalid.1 address rfl)
      obtain ⟨last, hrelease, hfrees⟩ := h.sound.release_spec hheld log
      simp only [Call.run, HeapM.runOn_bind, hrelease, HeapM.runOn_pure] at hrun
      cases hrun
      exact growsFor_of_len_eq hfrees.len_eq _
  | write address start count f =>
    simp only [Call.run, HeapM.runOn_bind, HeapM.runOn_modify, HeapM.runOn_pure] at hrun
    cases hrun
    have hlen : (heap.pool.arena.fill (address + start) count f).len = heap.pool.arena.len := rfl
    exact growsFor_of_len_eq hlen _

end Heap

section Runs

variable {ρ : Type} [Region ρ] [GrowsInPlace ρ] {build : Build} {region : ρ} {heap : Heap ρ}
  {live : List Nat}

/-- A search for any number of bytes finds what it should. A call that makes the arena grow searches
    for a block when none of the free blocks would do, but for hidden ones. -/
theorem searched_of_reachable (h : Reachable build region heap live) :
    ∃ blocks chains, heap.pool.blocks = .ok blocks ∧
      heap.pool.index.Mirrors heap.pool.arena chains ∧
      (∀ needed, ∃ found, heap.pool.Searches blocks chains needed found) ∧
      ∀ call : Call, call.Valid heap live → ∀ answer after log log',
        call.run.runOn heap log = .ok (answer, after) log' →
        after.pool.arena.len ≠ heap.pool.arena.len →
        ∃ needed ∈ call.sought?, ∀ info ∈ blocks, info.allocated = false → needed ≤ info.size →
          chains.Hides needed info := by
  obtain ⟨blocks, chains, howns⟩ := h.owns
  have horderly := howns.sound.orderly
  refine ⟨blocks, chains, Pool.blocks_eq horderly.represents.laid,
    horderly.represents.threads.mirrors, horderly.searches,
    fun call hvalid answer after log log' hrun hgrown => ?_⟩
  obtain ⟨needed, hsought, hnone⟩ := howns.call_growsFor hvalid hrun hgrown
  obtain ⟨found, hsearch⟩ := horderly.searches needed
  obtain rfl : found = none := by simpa [hnone] using hsearch.fit?_eq.symm
  exact ⟨needed, hsought, hsearch.hides rfl⟩

/-- The arena grows for 8000 bytes, since no free block is large enough. -/
theorem searched_after_sampleCalls : ∃ heap,
    replay .checked sampleRegion sampleCalls = some (heap, [66112, 66048, 65696]) ∧
    ∃ blocks chains, heap.pool.blocks = .ok blocks ∧
      heap.pool.index.Mirrors heap.pool.arena chains ∧
      (∀ needed, ∃ found, heap.pool.Searches blocks chains needed found) ∧
      ∃ answer after log', (Call.allocate 8000).run.runOn heap #[] = .ok (answer, after) log' ∧
        after.pool.arena.len ≠ heap.pool.arena.len ∧
        ∀ info ∈ blocks, info.allocated = false → 8016 ≤ info.size → chains.Hides 8016 info := by
  have heval : (replay .checked sampleRegion sampleCalls).map (fun state => (state.2,
      match (Call.allocate 8000).run.runOn state.1 #[] with
      | .ok (_, after) _ => decide (after.pool.arena.len ≠ state.1.pool.arena.len)
      | .error .. => false)) = some ([66112, 66048, 65696], true) := by
    decide +kernel
  obtain ⟨heap, hreplay, hgrown⟩ := exists_of_replay heval
  obtain ⟨blocks, chains, hblocks, hmirrors, hsearches, hcalls⟩ :=
    searched_of_reachable (reachable_of_replay hreplay)
  refine ⟨heap, hreplay, blocks, chains, hblocks, hmirrors, hsearches, ?_⟩
  cases hrun : (Call.allocate 8000).run.runOn heap #[] with
  | error fault log =>
    rw [hrun] at hgrown
    cases hgrown
  | ok state log =>
    rw [hrun] at hgrown
    have hne := of_decide_eq_true hgrown
    obtain ⟨needed, hneeded, hhides⟩ := hcalls (.allocate 8000) ⟨nofun, trivial⟩ _ _ _ _ hrun hne
    cases hneeded
    exact ⟨_, _, _, rfl, hne, hhides⟩

end Runs

end BoundaryTag
