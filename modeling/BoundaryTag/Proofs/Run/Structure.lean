import BoundaryTag.Proofs.Pool.Walk
import BoundaryTag.Proofs.Run.Step

namespace BoundaryTag

/-- Between the prologue and the epilogue, blocks lie end to end, each with its size and state in
    its header and in its footer. The walk over the headers finds them. -/
structure Pool.IsTiled (pool : Pool) (blocks : List BlockInfo) : Prop where
  prologue_header : pool.arena.tagAt 8 = .ok (.ofSize 16 true)
  prologue_footer : pool.arena.tagAt 16 = .ok (.ofSize 16 true)
  blocks_eq : pool.blocks = .ok blocks
  tiles : Tiles 32 blocks pool.arena.len
  header_eq : ∀ info ∈ blocks, pool.arena.header info.block = .ok info.tag
  footer_eq : ∀ info ∈ blocks, pool.arena.footer info.block = .ok info.tag
  epilogue : pool.arena.tagAt (pool.arena.len - 8) = .ok .epilogue

/-- The list of each class runs from its head over blocks that name their neighbours, and ends. The
    lists name every free block that the walk finds, once, in the class of its size. -/
structure Pool.IsListed (pool : Pool) (chains : Chains) : Prop where
  head_eq : ∀ sizeClass : SizeClass, pool.index.head sizeClass = (chains sizeClass).head?
  link_eq : ∀ sizeClass front block rest, chains sizeClass = front ++ block :: rest →
    pool.arena.link block = .ok ⟨front.getLast?, rest.head?⟩
  nodup : ∀ sizeClass, (chains sizeClass).Nodup
  free_blocks : ∃ blocks, pool.blocks = .ok blocks ∧
    (∀ sizeClass block, block ∈ chains sizeClass ↔ ∃ info ∈ blocks, info.block = block ∧
      info.allocated = false ∧ SizeClass.ofSize info.size = sizeClass) ∧
    ((List.finRange classCount).flatMap chains).Perm
      ((blocks.filter fun info => !info.allocated).map BlockInfo.block)

section Runs

variable {build : Build} {region : UnreliableRegion BufferRegion} {heap : BufferHeap}
  {live : List Nat}

/-- The arena spans the region, and blocks tile it. -/
theorem tiled_of_reachable (h : Reachable build region heap live) :
    heap.pool.arena.len = Region.len heap.region ∧ ∃ blocks, heap.pool.IsTiled blocks := by
  obtain ⟨blocks, chains, howns⟩ := h.owns
  have hlaid := howns.sound.orderly.represents.laid
  have hlen := hlaid.len_ge
  have hmod := hlaid.len_mod
  have hfront : ∀ offset, prologueInfo.HasTagAt offset →
      heap.pool.arena.memory.load offset = (Tag.ofSize 16 true).raw := hlaid.front
  refine ⟨howns.sound.len_eq, blocks, ?_, ?_, Pool.blocks_eq hlaid, hlaid.tiles,
    fun info hinfo => hlaid.header_eq hinfo, fun info hinfo => ?_, ?_⟩
  · rw [Arena.tagAt_eq (by omega) (by omega), hfront 8 (.inl rfl)]
  · rw [Arena.tagAt_eq (by omega) (by omega), hfront 16 (.inr rfl)]
  · exact Arena.footer_eq (hlaid.fits hinfo) (hlaid.tagged info hinfo)
  · rw [Arena.tagAt_eq (by omega) (by omega), hlaid.last]

theorem tiled_after_sampleCalls : ∃ heap,
    replay .checked sampleRegion sampleCalls = some (heap, [66112, 66048, 65696]) ∧
      heap.pool.arena.len = Region.len heap.region ∧ ∃ blocks, heap.pool.IsTiled blocks := by
  obtain ⟨heap, hreplay⟩ := replay_sampleCalls
  exact ⟨heap, hreplay, tiled_of_reachable (reachable_of_replay hreplay)⟩

/-- The index lists the free blocks. -/
theorem listed_of_reachable (h : Reachable build region heap live) :
    ∃ chains, heap.pool.IsListed chains := by
  obtain ⟨blocks, chains, howns⟩ := h.owns
  have horderly := howns.sound.orderly
  have hthreads := horderly.represents.threads
  refine ⟨chains, hthreads.head_eq_some, fun _ _ _ _ hsplit => hthreads.link_eq hsplit,
    hthreads.nodup, blocks, Pool.blocks_eq horderly.represents.laid, fun _ _ => ?_, ?_⟩
  · exact horderly.mem_chains_iff
  · exact horderly.flatMap_chains_perm

theorem listed_after_sampleCalls : ∃ heap,
    replay .checked sampleRegion sampleCalls = some (heap, [66112, 66048, 65696]) ∧
      ∃ chains, heap.pool.IsListed chains := by
  obtain ⟨heap, hreplay⟩ := replay_sampleCalls
  exact ⟨heap, hreplay, listed_of_reachable (reachable_of_replay hreplay)⟩

end Runs

end BoundaryTag
