import BoundaryTag.Proofs.Run.Layout

namespace BoundaryTag

namespace Heap

variable {ρ : Type} [Region ρ]

/-- The `usable` bytes from `p` on lie in a free block, between its tags. -/
def Vacates (heap : Heap ρ) (p usable : Nat) : Prop :=
  ∃ blocks, heap.pool.blocks = .ok blocks ∧ ∃ info ∈ blocks, info.allocated = false ∧
    heap.pool.arena.address info.block ≤ p ∧
    p + usable ≤ heap.pool.arena.address info.block + (info.size - 16)

/-- What is at `p` was moved to `q`, as far as `size` bytes. The bytes at `q` were not in use
    before, and those at `p` are freed last. -/
structure Moves (heap after : Heap ρ) (live : List Nat) (p size q : Nat) : Prop where
  fresh : q ∉ live
  large : ∃ usable, after.pool.usableSize q = .ok usable ∧ size ≤ usable
  moved : ∃ usable, heap.pool.usableSize p = .ok usable ∧ after.Vacates p usable ∧
    ∀ i < min size usable, after.pool.arena.byte (q + i) = heap.pool.arena.byte (p + i)
  released : p ∉ q :: live.erase p
  in_use : after.InUseAt (q :: live.erase p)
  preserves : ∀ r ∈ live, r ≠ p → heap.Preserves after r

variable [GrowsInPlace ρ] {heap after : Heap ρ} {live : List Nat} {blocks kept : List BlockInfo}
  {chains : Chains} {info fresh : BlockInfo}

/-- Once its block is not in use, and none that came into use overlaps it, its bytes are free. -/
theorem Sound.vacates (h : heap.Sound blocks chains) (hheld : (held blocks).Perm (info :: kept))
    (hgrants : heap.Grants after kept fresh)
    (hapart : ∀ x ∈ held blocks, ∀ offset, x.Covers offset → ¬ fresh.Covers offset) :
    after.Vacates (heap.pool.arena.address info.block) (info.size - 16) := by
  have hinfo := hheld.mem_iff.2 List.mem_cons_self
  have hlies := h.orderly.represents.laid.liesIn (mem_held.1 hinfo).1
  have htiles := h.orderly.represents.laid.tiles
  obtain ⟨infos, links, hafter, hperm⟩ := hgrants.sound
  have hlaid := hafter.orderly.represents.laid
  have hnodup := hheld.nodup_iff.1 (htiles.nodup.filter _)
  -- No block in use afterwards meets the old span, whatever the merge made of it.
  have hothers : ∀ x ∈ held infos, ∀ offset, info.Covers offset → ¬ x.Covers offset := by
    intro x hx offset hcovers hcovered
    rcases List.mem_cons.1 (hperm.mem_iff.1 hx) with rfl | hkept
    · exact hapart info hinfo offset hcovers hcovered
    · have hold := (mem_held.1 (hheld.mem_iff.2 (List.mem_cons_of_mem _ hkept))).1
      obtain rfl := htiles.eq_of_covers (mem_held.1 hinfo).1 hold hcovers hcovered
      exact (List.nodup_cons.1 hnodup).1 hkept
  have hlies' : info.LiesIn frontBytes after.pool.arena.len :=
    { hlies with stop_le := hlies.stop_le.trans hgrants.carries.len_le }
  obtain ⟨around, haround, hfree, hlow, hhigh⟩ :=
    hafter.orderly.tidy.settled.exists_around hlaid.tiles hlies' hothers
  refine ⟨infos, Pool.blocks_eq hlaid, around, haround, hfree, ?_, ?_⟩
  · rw [hgrants.carries.address_eq]
    exact Nat.add_le_add_left hlow _
  · have hsize := hlies.size_ge
    rw [hgrants.carries.address_eq]
    simp only [Arena.address, BlockInfo.stop] at hhigh ⊢
    omega

/-- Resizing a block to some bytes answers, and moves what is in it if it answers with an
    address. -/
theorem Owns.resize_moves (h : heap.Owns live blocks chains) {p size : Nat} (hp : p ∈ live)
    (hsize : size ≠ 0) (log : Array Event) :
    ∃ answer after log', (resize (some p) size).runOn heap log = .ok (answer, after) log' ∧
      ∀ q ∈ answer, heap.Moves after live p size q := by
  obtain ⟨info, kept, hheld, rfl, hkept⟩ := h.exists_info hp
  have hinfo := (mem_held.1 (hheld.mem_iff.2 List.mem_cons_self)).1
  have hbefore : ∀ x ∈ kept, x ∈ held blocks := fun x hx =>
    hheld.mem_iff.2 (List.mem_cons_of_mem _ hx)
  obtain ⟨answer, after, log', hrun, hcases⟩ := h.sound.resize_spec hheld size log
  refine ⟨answer, after, log', hrun, ?_⟩
  rcases hcases with
    ⟨rfl, -⟩ | ⟨-, hzero, -⟩ | ⟨fresh, rfl, hgrants, hapart, hfits, hbytes, -⟩
  · exact nofun
  · exact absurd hzero hsize
  · rintro _ ⟨⟩
    obtain ⟨⟨infos, links, hafter⟩, hfresh, husable, hpreserves⟩ :=
      h.brings hgrants hkept hbefore hapart
    refine ⟨hfresh, ⟨_, husable, by omega⟩, ⟨_, h.sound.usableSize_eq hinfo,
      h.sound.vacates hheld hgrants hapart, hbytes⟩, ?_, hafter.inUseAt, fun r hr hne => ?_⟩
    · intro hmem
      rcases List.mem_cons.1 hmem with heq | hmem
      · exact hfresh (heq ▸ hp)
      · exact h.nodup.not_mem_erase hmem
    · exact hpreserves r ((List.mem_erase_of_ne hne).2 hr)

end Heap

section Runs

variable {ρ : Type} [Region ρ] [GrowsInPlace ρ] {build : Build} {region : ρ} {heap : Heap ρ}
  {live : List Nat}

/-- Resizing to some bytes moves them, if it answers with an address. Resizing to none releases, and
    without an old address it allocates. -/
theorem moved_of_reachable (h : Reachable build region heap live) :
    (∀ p ∈ live, ∀ size, size ≠ 0 → ∀ log, ∃ answer after log',
      (Heap.resize (some p) size).runOn heap log = .ok (answer, after) log' ∧
      ∀ q ∈ answer, heap.Moves after live p size q) ∧
    (∀ p ∈ live, ∀ log, ∃ after, (Heap.release (some p)).runOn heap log = .ok ((), after) log ∧
      (Heap.resize (some p) 0).runOn heap log = .ok (none, after) log) ∧
    ∀ size log, (Heap.resize none size).runOn heap log = (Heap.allocate size).runOn heap log := by
  obtain ⟨blocks, chains, howns⟩ := h.owns
  refine ⟨fun p hp size hsize log => howns.resize_moves hp hsize log, fun p hp log => ?_,
    fun _ _ => rfl⟩
  obtain ⟨info, kept, hheld, rfl, -⟩ := howns.exists_info hp
  obtain ⟨after, hrelease, -⟩ := howns.sound.release_spec hheld log
  refine ⟨after, hrelease, ?_⟩
  simp only [Heap.resize, if_true, HeapM.runOn_bind, hrelease, HeapM.runOn_pure]

/-- All 112 bytes of a block move to the free block behind it. The old block is merged with the one
    before it. -/
theorem moved_after_sampleCalls : ∃ heap,
    replay .checked sampleRegion sampleCalls = some (heap, [66112, 66048, 65696]) ∧
    (∃ after log', (Heap.resize (some 65696) 150).runOn heap #[] = .ok (some 65824, after) log' ∧
      heap.Moves after [66112, 66048, 65696] 65696 150 65824) ∧
    ∃ after, (Heap.release (some 65696)).runOn heap #[] = .ok ((), after) #[] ∧
      (Heap.resize (some 65696) 0).runOn heap #[] = .ok (none, after) #[] := by
  have heval : (replay .checked sampleRegion sampleCalls).map (fun state =>
      (state.2, (Heap.resize (some 65696) 150).answerOn state.1)) =
      some ([66112, 66048, 65696], some (some 65824)) := by
    decide +kernel
  obtain ⟨heap, hreplay, hanswer⟩ := exists_of_replay heval
  have hlive : 65696 ∈ [66112, 66048, 65696] := by decide
  obtain ⟨hmoves, hreleases, -⟩ := moved_of_reachable (reachable_of_replay hreplay)
  obtain ⟨answer, after, log', hrun, hmoved⟩ := hmoves 65696 hlive 150 (by decide) #[]
  rw [HeapM.answerOn, hrun] at hanswer
  cases hanswer
  exact ⟨heap, hreplay, ⟨after, log', hrun, hmoved _ rfl⟩, hreleases 65696 hlive #[]⟩

end Runs

end BoundaryTag
