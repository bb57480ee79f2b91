import BoundaryTag.Proofs.FreeList.Edits
import BoundaryTag.Proofs.Run.Payload

namespace BoundaryTag

namespace Heap

variable {ρ : Type} [Region ρ]

/-- The arena has grown by `bytes`. The free block `last` at its end is made of the new bytes and of
    `trailing`, the block that was last before, if that one was free. Only that one leaves its list,
    and `last` is the first of its own. -/
structure Extends (heap after : Heap ρ) (bytes : Nat) (front : List BlockInfo)
    (trailing : Option BlockInfo) (last : BlockInfo) : Prop where
  len_eq : after.pool.arena.len = heap.pool.arena.len + bytes
  region_len_eq : Region.len after.region = Region.len heap.region + bytes
  blocks_before : heap.pool.blocks = .ok (front ++ trailing.toList)
  trailing_eq : freeLast? (front ++ trailing.toList) = trailing
  trailing_stop : ∀ x ∈ trailing, x.stop = heap.pool.arena.len
  blocks_after : after.pool.blocks = .ok (front ++ [last])
  free : last.allocated = false
  size_eq : last.size = bytes + (trailing.map BlockInfo.size).getD 0
  stop_eq : last.stop = after.pool.arena.len
  header_next : after.pool.arena.header (last.block.skip last.size) = .ok .epilogue
  preserves : ∀ x ∈ front, x.allocated = true →
    heap.Preserves after (heap.pool.arena.address x.block)
  lists : ∃ chains, heap.pool.index.Mirrors heap.pool.arena chains ∧
    after.pool.index.Mirrors after.pool.arena
      ((chains.without (trailing.map BlockInfo.block).toList).push (SizeClass.ofSize last.size)
        last.block)

variable [GrowsInPlace ρ] {heap after : Heap ρ} {blocks : List BlockInfo} {chains : Chains}
  {info : BlockInfo}

/-- What was appended is all that happened to the arena. -/
theorem Appends.extends (h : heap.Appends after blocks chains info)
    (hsound : heap.Sound blocks chains) :
    heap.Extends after info.size (trimLast blocks) (freeLast? blocks)
      (BlockInfo.merge (freeLast? blocks) info none) := by
  have hsplit := trimLast_append blocks
  have hrepresents := hsound.orderly.represents
  have hafter := h.sound
  have hlists := hafter.orderly.represents.threads.mirrors
  rw [Chains.mergeAt_push chains h.free (hrepresents.fresh_new h.offset_eq)] at hlists
  rw [mergeAt_nil] at hafter
  have hlaid := hafter.orderly.represents.laid
  refine ⟨h.len_eq, ?_, ?_, by rw [hsplit], fun x hx => ?_, Pool.blocks_eq hlaid, rfl, rfl,
    (tiles_middle.1 hlaid.tiles).2.2.2, hlaid.header_next, fun x hx hallocated => ?_,
    chains, hrepresents.threads.mirrors, hlists⟩
  · rw [← hafter.len_eq, ← hsound.len_eq, h.len_eq]
  · rw [hsplit]
    exact Pool.blocks_eq hrepresents.laid
  · have htiles := hrepresents.laid.tiles
    rw [← hsplit, Option.mem_def.1 hx] at htiles
    exact (tiles_middle.1 htiles).2.2.2
  · have hmem : x ∈ blocks := hsplit ▸ List.mem_append_left _ hx
    exact h.carries.preserves hsound hafter hmem (List.mem_append_left _ hx)
      (mem_held.2 ⟨hmem, hallocated⟩)

end Heap

section Runs

variable {ρ : Type} [Region ρ] [GrowsInPlace ρ] {build : Build} {region : ρ} {heap : Heap ρ}
  {live : List Nat}

/-- Growing does not fail. If the region grants it, the arena grows by what was asked for, rounded
    up to a multiple of 16, and the answer is the free block at its end. -/
theorem extended_of_reachable (h : Reachable build region heap live) {bytes : Nat}
    (hbytes : smallestBlock ≤ bytes) (log : Array Event) :
    ∃ answer after log', (Heap.extend bytes).runOn heap log = .ok (answer, after) log' ∧
      ∀ block, answer = .ok block →
        ∃ size front last, ∃ trailing : Option BlockInfo, last.block = block ∧
          size % 16 = 0 ∧ bytes ≤ size ∧ size < bytes + 16 ∧
          heap.Extends after size front trailing last := by
  obtain ⟨blocks, chains, howns⟩ := h.owns
  rcases howns.sound.extend_appends hbytes log with
    ⟨error, after, log', hrun, -⟩ | ⟨info, after, log', hround, hrun, happends⟩
  · exact ⟨_, after, log', hrun, nofun⟩
  · refine ⟨_, after, log', hrun, ?_⟩
    rintro _ ⟨⟩
    obtain ⟨-, hmod, hlow, hhigh, -⟩ := roundUp?_spec hround
    exact ⟨info.size, _, _, _, rfl, hmod, hlow, hhigh, happends.extends howns.sound⟩

/-- The last block is free and becomes longer by 5008 bytes. -/
theorem extended_after_sampleCalls : ∃ heap block after log',
    replay .checked sampleRegion sampleCalls = some (heap, [66112, 66048, 65696]) ∧
    smallestBlock ≤ 5000 ∧
    (Heap.extend 5000).runOn heap #[] = .ok (.ok block, after) log' ∧
    ∃ size front last, ∃ trailing : Option BlockInfo, last.block = block ∧
      size % 16 = 0 ∧ 5000 ≤ size ∧ size < 5000 + 16 ∧ trailing.isSome ∧
      heap.Extends after size front trailing last := by
  have hbytes : smallestBlock ≤ 5000 := by decide
  have heval : (replay .checked sampleRegion sampleCalls).map (fun state => (state.2,
      state.1.pool.arena.len, ((Heap.extend 5000).grantOn state.1).map fun granted =>
        decide (granted.1.offset < state.1.pool.arena.len))) =
      some ([66112, 66048, 65696], 4128, some true) := by
    decide +kernel
  obtain ⟨heap, hreplay, hvalues⟩ := exists_of_replay heval
  obtain ⟨⟨block, len⟩, hgrant, hbefore⟩ := Option.map_eq_some_iff.1 (Prod.mk.inj hvalues).2
  obtain ⟨after, log', hrun, -⟩ := RequestM.exists_of_grantOn hgrant
  obtain ⟨answer, _, _, hextend, hextended⟩ :=
    extended_of_reachable (reachable_of_replay hreplay) hbytes #[]
  rw [hrun] at hextend
  cases hextend
  obtain ⟨size, front, last, trailing, rfl, hmod, hlow, hhigh, hextends⟩ := hextended block rfl
  refine ⟨heap, _, after, log', hreplay, hbytes, hrun, size, front, last, trailing, rfl, hmod, hlow,
    hhigh, ?_, hextends⟩
  -- A new block would start where the arena ended.
  cases trailing with
  | some old => rfl
  | none =>
    have hstart : last.block.offset < heap.pool.arena.len := of_decide_eq_true hbefore
    have hsize : last.size = size := hextends.size_eq
    have hstop := hextends.stop_eq
    rw [hextends.len_eq, BlockInfo.stop] at hstop
    omega

end Runs

end BoundaryTag
