import BoundaryTag.Heap.Query
import BoundaryTag.Proofs.Audit.Agreement
import BoundaryTag.Proofs.Audit.Loops
import BoundaryTag.Proofs.Audit.Words

namespace BoundaryTag

variable {ρ : Type} {heap : Heap ρ}

/-- An audit of the heap answers with `report`, and an iteration over its blocks yields `blocks`,
    later ones at higher offsets. Both leave the heap as it is, their loops come to an end by
    themselves, and they look at none but aligned words in the arena. -/
structure Heap.Examined (heap : Heap ρ) (report : Report) (blocks : List BlockInfo) : Prop where
  audit_eq : ∀ log, Heap.audit.runOn heap log =
    .ok (report, heap) (log ++ (report.violations.map Event.violation).toArray)
  blocks_eq : ∀ log, Heap.blocks.runOn heap log = .ok (blocks, heap) log
  increasing : blocks.Pairwise fun x y => x.block.offset < y.block.offset
  blocks_loop : heap.pool.YieldsBlocks blocks
  list_loops : ∀ sizeClass, ∃ found, heap.pool.surveyClass sizeClass = .ok found ∧
    heap.pool.WalksClass sizeClass found
  words : ∀ other, heap.pool.arena.Matches other →
    Pool.audit { heap.pool with arena := other } = .ok report ∧
      Pool.blocks { heap.pool with arena := other } = .ok blocks

namespace Pool

variable {pool : Pool}

/-- What a checked build answers, it answers without a look at the words that it may not read. -/
theorem answers_of_checked (h : pool.arena.WellPlaced) (hbuild : pool.arena.build = .checked) :
    ∃ report blocks, ∀ other, pool.arena.Matches other →
      audit { pool with arena := other } = .ok report ∧
        Pool.blocks { pool with arena := other } = .ok blocks := by
  obtain ⟨report, haudit, -⟩ := pool.audit_spec h
  obtain ⟨blocks, hblocks, -⟩ := yieldsBlocks_spec h
  exact ⟨report, blocks, fun other hmatches =>
    ⟨entails_audit hmatches hbuild report haudit, entails_blocks hmatches hbuild blocks hblocks⟩⟩

/-- The answers of any build are those of a checked one. -/
theorem answers_of_matches (h : pool.arena.WellPlaced) :
    ∃ report blocks, ∀ other, pool.arena.Matches other →
      audit { pool with arena := other } = .ok report ∧
        Pool.blocks { pool with arena := other } = .ok blocks := by
  have hchecked : (Pool.mk { pool.arena with build := .checked } pool.index).arena.WellPlaced :=
    ⟨h.base_mod, h.len_mod, h.len_ge, h.short⟩
  obtain ⟨report, blocks, hanswers⟩ := answers_of_checked hchecked rfl
  exact ⟨report, blocks, fun other hmatches =>
    hanswers other ⟨hmatches.base_eq, hmatches.len_eq, hmatches.load_eq⟩⟩

end Pool

/-- Whatever its words and its heads are, a heap can be audited and its blocks iterated over. -/
theorem examined_of_wellPlaced (h : heap.pool.arena.WellPlaced) :
    ∃ report blocks, heap.Examined report blocks := by
  obtain ⟨report, blocks, hanswers⟩ := Pool.answers_of_matches h
  obtain ⟨haudit, hblocks⟩ := hanswers heap.pool.arena ⟨rfl, rfl, fun _ _ _ => rfl⟩
  obtain ⟨infos, hiterated, hyields, hincreasing⟩ := Pool.yieldsBlocks_spec h
  obtain rfl : infos = blocks := Except.ok.inj (hiterated.symm.trans hblocks)
  refine ⟨report, infos, Heap.runOn_audit_eq haudit, fun log => ?_, hincreasing, hyields,
    Pool.walksClass_spec h, hanswers⟩
  simp only [Heap.blocks, HeapM.runOn_bind, HeapM.runOn_get, HeapM.runOn_liftM, hiterated]

/-- Stray words: a header that says a size of almost `2 ^ 64`, and a link of the block at 32 to
    itself. -/
theorem examined_after_strayWords : ∃ heap,
    replay .checked sampleRegion sampleCalls = some (heap, [66112, 66048, 65696]) ∧
    (heap.overwrite [(88, 0xFFFFFFFFFFFFFFF0), (40, 32)]).pool.arena.WellPlaced ∧
    ∃ report blocks,
      (heap.overwrite [(88, 0xFFFFFFFFFFFFFFF0), (40, 32)]).Examined report blocks := by
  obtain ⟨heap, hreplay⟩ := replay_sampleCalls
  have hplaced : (heap.overwrite [(88, 0xFFFFFFFFFFFFFFF0), (40, 32)]).pool.arena.WellPlaced :=
    (reachable_of_replay hreplay).wellPlaced _
  exact ⟨heap, hreplay, hplaced, examined_of_wellPlaced hplaced⟩

end BoundaryTag
