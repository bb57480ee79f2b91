import BoundaryTag.Proofs.Pool.Count
import BoundaryTag.Proofs.Run.Payload

namespace BoundaryTag

namespace Heap

variable {ρ : Type} [Region ρ]

/-- A request for `size` bytes, which takes a block of `needed` bytes, answers with the address of
    `taken`. That block is at most one step of 16 bytes larger than it has to be, and what callers
    have in other blocks stays as it is. -/
structure Serves (heap after : Heap ρ) (live : List Nat) (size needed : Nat) (taken : BlockInfo)
    (address : Nat) : Prop where
  address_eq : after.pool.arena.address taken.block = address
  size_ge : needed ≤ taken.size
  size_le : taken.size ≤ needed + 16
  usableSize_eq : after.pool.usableSize address = .ok (taken.size - 16)
  room : size ≤ taken.size - 16
  preserves : ∀ p ∈ live, heap.Preserves after p

variable [GrowsInPlace ρ] {heap after : Heap ρ} {live : List Nat} {blocks : List BlockInfo}
  {chains : Chains} {taken : BlockInfo} {size needed : Nat}

/-- A granted block serves a request, if it is too small for one more block behind it. -/
theorem Owns.serves (h : heap.Owns live blocks chains) (hneeded : blockSize size = .ok needed)
    (hgrants : heap.Grants after (held blocks) taken) (hlow : needed ≤ taken.size)
    (hhigh : taken.size < needed + smallestBlock) :
    heap.Serves after live size needed taken (after.pool.arena.address taken.block) := by
  obtain ⟨hmod, -, hroom, -⟩ := blockSize_spec hneeded
  have htakenMod := hgrants.liesIn.size_mod
  obtain ⟨infos, links, hafter, hheld⟩ := hgrants.sound
  have htaken := (mem_held.1 (hheld.mem_iff.2 List.mem_cons_self)).1
  refine ⟨rfl, hlow, ?_, hafter.usableSize_eq htaken, by omega, fun p hp => ?_⟩
  · simp only [smallestBlock] at hhigh
    omega
  · obtain ⟨info, hinfo, rfl⟩ := h.exists_held hp
    exact (hgrants.continues h.perm).preserves h.sound hinfo hinfo

end Heap

section Runs

variable {ρ : Type} [Region ρ] [GrowsInPlace ρ] {build : Build} {region : ρ} {heap : Heap ρ}
  {live : List Nat}

/-- A request that is granted takes the first bytes of the free block that the search finds, or of
    the last one, after a growth, if the search finds none. If enough for a block is left behind
    them, that is a free block and the first in the list of its class. -/
theorem placed_of_reachable (h : Reachable build region heap live) (size : Nat)
    (log : Array Event) :
    ∃ answer after log', (Heap.request size).runOn heap log = .ok (answer, after) log' ∧
      ∀ address, answer = .ok address →
        ∃ needed found whole taken, ∃ behind : Option BlockInfo,
          blockSize size = .ok needed ∧ needed ≤ whole.size ∧
          whole.carve needed = taken :: behind.toList ∧
          heap.Places after needed found whole none taken behind ∧
          (∀ part ∈ behind,
            after.pool.index.head (SizeClass.ofSize part.size) = some part.block) ∧
          heap.Serves after live size needed taken address ∧ address % 16 = 0 := by
  obtain ⟨blocks, chains, howns⟩ := h.owns
  rcases howns.sound.request_takes size log with
    ⟨error, after, log', hrun, -⟩ | ⟨needed, found, whole, after, log', hneeded, hrun, htakes⟩
  · exact ⟨_, after, log', hrun, nofun⟩
  · refine ⟨_, after, log', hrun, ?_⟩
    rintro _ ⟨⟩
    obtain ⟨taken, behind, hcarve⟩ := whole.exists_carve needed
    obtain ⟨hblock, -, hlow, hhigh, -⟩ := BlockInfo.carve_spec hcarve htakes.large
    have hgrants := htakes.grants hcarve
    have hserves := howns.serves hneeded hgrants hlow hhigh
    have haligned := hgrants.address_mod (isPowerOfTwo_shiftLeft 4) (Nat.le_refl _)
    rw [hblock] at hserves haligned
    exact ⟨needed, found, whole, taken, behind, hneeded, htakes.large, hcarve,
      htakes.places howns.sound hcarve, htakes.head_eq hcarve, hserves, haligned⟩

/-- The search finds a free block of 224 bytes, of which it takes 128. -/
theorem placed_after_sampleCalls : ∃ heap after log',
    replay .checked sampleRegion sampleCalls = some (heap, [66112, 66048, 65696]) ∧
    (Heap.request 100).runOn heap #[] = .ok (.ok 65824, after) log' ∧
    ∃ needed found whole taken, ∃ behind : Option BlockInfo,
      blockSize 100 = .ok needed ∧ needed ≤ whole.size ∧
      whole.carve needed = taken :: behind.toList ∧
      heap.Places after needed found whole none taken behind ∧
      (∀ part ∈ behind, after.pool.index.head (SizeClass.ofSize part.size) = some part.block) ∧
      heap.Serves after [66112, 66048, 65696] 100 needed taken 65824 := by
  have heval : (replay .checked sampleRegion sampleCalls).map (fun state =>
      (state.2, (Heap.request 100).granted.answerOn state.1)) =
      some ([66112, 66048, 65696], some (some 65824)) := by
    decide +kernel
  obtain ⟨heap, hreplay, hanswer⟩ := exists_of_replay heval
  obtain ⟨answer, after, log', hrun, hplaced⟩ :=
    placed_of_reachable (reachable_of_replay hreplay) 100 #[]
  obtain rfl := HeapM.eq_ok_of_answerOn hanswer hrun
  obtain ⟨needed, found, whole, taken, behind, hneeded, hle, hcarve, hplaces, hhead, hserves, -⟩ :=
    hplaced _ rfl
  exact ⟨heap, after, log', hreplay, hrun, needed, found, whole, taken, behind, hneeded, hle,
    hcarve, hplaces, hhead, hserves⟩

/-- A request for an alignment above 16 that is granted searches for room for any lead. It cuts its
    block out of the one that it takes, and what is left before and behind it is free. -/
theorem aligned_of_reachable (h : Reachable build region heap live) {align : Nat}
    (hpower : IsPowerOfTwo align) (hlarge : alignment < align) (size : Nat) (log : Array Event) :
    ∃ answer after log',
      (Heap.requestAligned align size).runOn heap log = .ok (answer, after) log' ∧
      ∀ address, answer = .ok address →
        ∃ needed sought found whole taken, ∃ before behind : Option BlockInfo,
          blockSize size = .ok needed ∧
          blockSize (needed + align + smallestBlock - tagBytes) = .ok sought ∧
          heap.Places after sought found whole before taken behind ∧
          (∀ part ∈ before, 32 ≤ part.size) ∧ (∀ part ∈ behind, 32 ≤ part.size) ∧
          spannedBytes (before.toList ++ taken :: behind.toList) = whole.size ∧
          heap.Serves after live size needed taken address ∧ address % align = 0 := by
  obtain ⟨blocks, chains, howns⟩ := h.owns
  rcases howns.sound.requestAligned_of_lt hpower hlarge size log with
    ⟨error, after, log', hrun, -⟩ | ⟨needed, block, middle, log', hneeded, htake⟩
  · exact ⟨_, after, log', hrun, nofun⟩
  · obtain ⟨sought, found, whole, taken, after, before, behind, hsought, hrun, hplaces, hlow, hhigh,
      hgrants, haligned⟩ := howns.sound.requestAligned_places hpower hlarge hneeded htake
    refine ⟨_, after, log', hrun, ?_⟩
    rintro _ ⟨⟩
    have htiles := hplaces.exchanges.tiles
    have hspan := htiles.add_spannedBytes
    rw [BlockInfo.stop] at hspan
    refine ⟨needed, sought, found, whole, taken, before, behind, hneeded, hsought, hplaces, ?_, ?_,
      Nat.add_left_cancel hspan, howns.serves hneeded hgrants hlow hhigh, haligned⟩
    · rintro part rfl
      exact htiles.size_ge (by simp)
    · rintro part rfl
      exact htiles.size_ge (by simp)

/-- The block is cut out of the last free one, 48 bytes behind its start. -/
theorem aligned_after_sampleCalls : IsPowerOfTwo 256 ∧ alignment < 256 ∧ ∃ heap after log',
    replay .checked sampleRegion sampleCalls = some (heap, [66112, 66048, 65696]) ∧
    (Heap.requestAligned 256 40).runOn heap #[] = .ok (.ok 66304, after) log' ∧
    ∃ needed sought found whole taken, ∃ before behind : Option BlockInfo,
      blockSize 40 = .ok needed ∧
      blockSize (needed + 256 + smallestBlock - tagBytes) = .ok sought ∧
      heap.Places after sought found whole before taken behind ∧
      (∀ part ∈ before, 32 ≤ part.size) ∧ (∀ part ∈ behind, 32 ≤ part.size) ∧
      spannedBytes (before.toList ++ taken :: behind.toList) = whole.size ∧
      heap.Serves after [66112, 66048, 65696] 40 needed taken 66304 := by
  have hpower : IsPowerOfTwo 256 := by decide
  have hlarge : alignment < 256 := by decide
  have heval : (replay .checked sampleRegion sampleCalls).map (fun state =>
      (state.2, (Heap.requestAligned 256 40).granted.answerOn state.1)) =
      some ([66112, 66048, 65696], some (some 66304)) := by
    decide +kernel
  obtain ⟨heap, hreplay, hanswer⟩ := exists_of_replay heval
  obtain ⟨answer, after, log', hrun, haligned⟩ :=
    aligned_of_reachable (reachable_of_replay hreplay) hpower hlarge 40 #[]
  obtain rfl := HeapM.eq_ok_of_answerOn hanswer hrun
  obtain ⟨needed, sought, found, whole, taken, before, behind, hneeded, hsought, hplaces, hbefore,
    hbehind, hsum, hserves, -⟩ := haligned _ rfl
  exact ⟨hpower, hlarge, heap, after, log', hreplay, hrun, needed, sought, found, whole, taken,
    before, behind, hneeded, hsought, hplaces, hbefore, hbehind, hsum, hserves⟩

end Runs

end BoundaryTag
