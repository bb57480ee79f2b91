import BoundaryTag.Proofs.Pool.Walk
import BoundaryTag.Proofs.Run.Step

namespace BoundaryTag

section Alone

variable {pool : Pool} {blocks : List BlockInfo} {chains : Chains}

/-- Without a block in use there is at most one block. -/
theorem Settled.length_le_one (h : Settled blocks) (hheld : held blocks = []) :
    blocks.length ≤ 1 := by
  have hfree : vacant blocks = blocks := by
    refine List.filter_eq_self.2 fun info hinfo => ?_
    cases hstate : info.allocated with
    | true => simpa [hheld] using mem_held.2 ⟨hinfo, hstate⟩
    | false => rfl
  have hcount := h.length_vacant_le.1
  rwa [hfree, hheld] at hcount

/-- A pool whose blocks are all free has one block, which is also the only one that is listed. -/
theorem Pool.Orderly.eq_singleton (h : pool.Orderly blocks chains) (hheld : held blocks = [])
    (hlen : 32 < pool.arena.len) : ∃ block : Block, block.offset = 32 ∧
      blocks = [⟨block, pool.arena.len - 32, false⟩] ∧
      ∀ sizeClass, chains sizeClass =
        if sizeClass = SizeClass.ofSize (pool.arena.len - 32) then [block] else [] := by
  have htiles := h.represents.laid.tiles
  have hcount := h.tidy.settled.length_le_one hheld
  match blocks, hcount with
  | [], _ =>
    have hend : 32 = pool.arena.len := htiles
    omega
  | [info], _ =>
    obtain ⟨hstart, -, -, hstop⟩ := htiles
    obtain ⟨block, size, allocated⟩ := info
    have hfree : allocated = false := by
      cases allocated with
      | true => cases hheld
      | false => rfl
    have hoffset : block.offset = 32 := hstart
    have hsize : block.offset + size = pool.arena.len := hstop
    obtain rfl : size = pool.arena.len - 32 := by omega
    subst hfree
    refine ⟨block, hoffset, rfl, fun sizeClass => ?_⟩
    have hnodup := h.represents.threads.nodup sizeClass
    have hmem : ∀ b, b ∈ chains sizeClass ↔
        b = block ∧ sizeClass = SizeClass.ofSize (pool.arena.len - 32) := by
      intro b
      constructor
      · intro hb
        obtain ⟨x, hx, rfl, -, rfl⟩ := h.represents.listed hb
        rw [List.mem_singleton.1 hx]
        exact ⟨rfl, rfl⟩
      · rintro ⟨rfl, rfl⟩
        exact h.tidy.listed _ (List.mem_singleton.2 rfl) rfl
    split
    · rename_i hclass
      refine List.perm_singleton.1 ((List.perm_ext_iff_of_nodup hnodup (by simp)).2 fun b => ?_)
      rw [hmem, List.mem_singleton, and_iff_left hclass]
    · rename_i hclass
      exact List.eq_nil_iff_forall_not_mem.2 fun b hb => hclass ((hmem b).1 hb).2

end Alone

section Runs

variable {ρ : Type} [Region ρ] [GrowsInPlace ρ] {build : Build} {region : ρ} {heap : Heap ρ}
  {live : List Nat}

/-- No heap of a run is without blocks, since arenas do not shrink. -/
theorem Reachable.len_gt (h : Reachable build region heap live) : 32 < heap.pool.arena.len := by
  induction h with
  | @create memory heap log _ hspace hcreate =>
    obtain ⟨answer, log', hrun, hsound⟩ := Heap.create_spec build hspace memory log
    rw [hcreate] at hrun
    cases hrun
    obtain ⟨-, blocks, chains, hsound, -, hblocks⟩ := hsound heap rfl
    obtain ⟨info, hinfo⟩ := List.exists_mem_of_ne_nil blocks hblocks
    have hlies := hsound.orderly.represents.laid.liesIn hinfo
    have hlow := hlies.start_le
    have hsize := hlies.size_ge
    have hstop := hlies.stop_le
    unfold BlockInfo.stop at hstop
    omega
  | @call heap after live call answer log _ hbefore hvalid hcall ih =>
    obtain ⟨blocks, chains, howns⟩ := hbefore.owns
    obtain ⟨kept, _, _, _, _, hcarries, -⟩ := howns.continues_of_run hvalid hcall
    exact Nat.lt_of_lt_of_le ih hcarries.len_le

/-- No two neighbours are free, so at most one more block is free than in use. When no block is in
    use, one free block fills the arena, and the lists name nothing else. -/
theorem settled_of_reachable (h : Reachable build region heap live) :
    ∃ blocks, heap.pool.blocks = .ok blocks ∧ Settled blocks ∧
      (vacant blocks).length ≤ (held blocks).length + 1 ∧
      (live = [] → ∃ block : Block, block.offset = 32 ∧
        blocks = [⟨block, heap.pool.arena.len - 32, false⟩] ∧
        ∀ (sizeClass : SizeClass) limit,
          heap.pool.arena.listFrom limit (heap.pool.index.head sizeClass) =
            .ok (if sizeClass = SizeClass.ofSize (heap.pool.arena.len - 32) then [block].take limit
              else [])) := by
  obtain ⟨blocks, chains, howns⟩ := h.owns
  have horderly := howns.sound.orderly
  have hsettled := horderly.tidy.settled
  refine ⟨blocks, Pool.blocks_eq horderly.represents.laid, hsettled,
    hsettled.length_vacant_le.1, ?_⟩
  rintro rfl
  have hheld : held blocks = [] := List.map_eq_nil_iff.1 howns.perm.eq_nil
  obtain ⟨block, hoffset, hblocks, hchains⟩ := horderly.eq_singleton hheld h.len_gt
  refine ⟨block, hoffset, hblocks, fun sizeClass limit => ?_⟩
  rw [horderly.represents.threads.listFrom_head_eq, hchains]
  split
  · rfl
  · rw [List.take_nil]

theorem settled_after_releases : ∃ heap,
    replay .checked sampleRegion (sampleCalls ++
      [.release (some 66048), .release (some 65696), .release (some 66112)]) = some (heap, []) ∧
    ∃ blocks, heap.pool.blocks = .ok blocks ∧ Settled blocks ∧
      ∃ block : Block, block.offset = 32 ∧
        blocks = [⟨block, heap.pool.arena.len - 32, false⟩] := by
  have hlive : (replay .checked sampleRegion (sampleCalls ++
      [.release (some 66048), .release (some 65696), .release (some 66112)])).map Prod.snd =
      some [] := by
    decide +kernel
  obtain ⟨⟨heap, live⟩, hreplay, rfl⟩ := Option.map_eq_some_iff.1 hlive
  obtain ⟨blocks, hblocks, hsettled, -, hempty⟩ :=
    settled_of_reachable (reachable_of_replay hreplay)
  obtain ⟨block, hoffset, hsingle, -⟩ := hempty rfl
  exact ⟨heap, hreplay, blocks, hblocks, hsettled, block, hoffset, hsingle⟩

end Runs

end BoundaryTag
