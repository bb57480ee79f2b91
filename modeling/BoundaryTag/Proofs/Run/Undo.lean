import BoundaryTag.Proofs.Heap.Aligned
import BoundaryTag.Proofs.Run.ReleaseOrder

namespace BoundaryTag

namespace Heap

variable {ρ : Type} {heap : Heap ρ}

/-- In `last` the blocks are those of `heap`, but for the bytes by which the arena grew. If it did
    not grow, the lists have the same members too. -/
structure Reverts (heap last : Heap ρ) : Prop where
  blocks : ∃ before ends, heap.pool.blocks = .ok before ∧ last.pool.blocks = .ok ends ∧
    Lengthens heap.pool.arena.len (last.pool.arena.len - heap.pool.arena.len) before ends
  alike : last.pool.arena.len = heap.pool.arena.len → heap.pool.Alike last.pool

/-- Releasing the memory that a request was granted undoes the request. -/
def Undoes (heap : Heap ρ) [Region ρ] (request : RequestM ρ Nat) : Prop :=
  ∀ address after log log', request.runOn heap log = .ok (.ok address, after) log' →
    ∃ last, (release (some address)).runOn after log' = .ok ((), last) log' ∧
      last.pool.arena.len = after.pool.arena.len ∧ heap.Reverts last

variable [Region ρ] [GrowsInPlace ρ] {after : Heap ρ} {blocks ends : List BlockInfo}
  {chains : Chains} {info : BlockInfo}

/-- The blocks in use are again those from before the request, and they decide all others. -/
theorem Sound.reverts (h : heap.Sound blocks chains)
    (hgrants : heap.Grants after (held blocks) info) {bytes : Nat}
    (hlen : after.pool.arena.len = heap.pool.arena.len + bytes)
    (hbytes : bytes = 0 ∨ 32 ≤ bytes)
    (hlengthens : Lengthens heap.pool.arena.len bytes blocks ends) (log : Array Event) :
    ∃ last, (release (some (after.pool.arena.address info.block))).runOn after log =
        .ok ((), last) log ∧
      last.pool.arena.len = after.pool.arena.len ∧ heap.Reverts last := by
  obtain ⟨infos, links, hafter, hheld⟩ := hgrants.sound
  obtain ⟨last, hrun, hfrees⟩ := hafter.release_spec hheld log
  obtain ⟨remains, links', hlast, hperm⟩ := hfrees.sound
  have hlaid := h.orderly.represents.laid
  have htiles := hlast.orderly.represents.laid.tiles
  have hlenLast : last.pool.arena.len = heap.pool.arena.len + bytes := hfrees.len_eq.trans hlen
  -- No merge is followed: with settled blocks, those in use leave no choice for the others.
  have hsame : held remains = held blocks := htiles.held_eq_of_perm hlaid.tiles hperm
  have hmod : bytes % 16 = 0 := by
    have hbefore := hlaid.len_mod
    have hbehind := hlast.orderly.represents.laid.len_mod
    omega
  have hends : Tiles frontBytes ends last.pool.arena.len := by
    rw [hlenLast]
    exact hlengthens.tiles hlaid.tiles hmod hbytes
  obtain rfl : remains = ends := by
    apply htiles.eq_of_held_eq hends hlast.orderly.tidy.settled
    · exact hlengthens.settled h.orderly.tidy.settled
    · rw [hsame, hlengthens.held_eq]
  refine ⟨last, hrun, hfrees.len_eq, ⟨blocks, remains, Pool.blocks_eq hlaid,
    Pool.blocks_eq hlast.orderly.represents.laid, ?_⟩,
    fun hkept => h.orderly.alike hlast.orderly hkept hsame⟩
  rw [hlenLast, Nat.add_sub_cancel_left]
  exact hlengthens

theorem Sound.request_undoes (h : heap.Sound blocks chains) (size : Nat) :
    heap.Undoes (request size) := by
  intro address after log log' hrun
  rcases h.request_takes size log with
    ⟨error, _, _, hrequest, -⟩ | ⟨needed, found, whole, _, _, -, hrequest, htakes⟩
  · rw [hrequest] at hrun
    cases hrun
  · rw [hrequest] at hrun
    cases hrun
    obtain ⟨taken, behind, hcarve⟩ := whole.exists_carve needed
    obtain ⟨front, rest, links, hlengthens, -⟩ := htakes.sound
    rw [← (BlockInfo.carve_spec hcarve htakes.large).1]
    exact h.reverts (htakes.grants hcarve) htakes.len_eq (bytesToGrow_eq_zero_or_ge needed found)
      hlengthens log'

omit [GrowsInPlace ρ] in
/-- A request for zeros is granted what the plain request is, and writes to it. -/
theorem runOn_request_of_zeroed {count size address : Nat} {log log' : Array Event}
    (hrun : (requestZeroed count size).runOn heap log = .ok (.ok address, after) log') :
    ∃ middle, (request (count * size)).runOn heap log = .ok (.ok address, middle) log' ∧
      after = { middle with pool.arena := middle.pool.arena.zero address (count * size) } := by
  by_cases hbig : UInt64.size ≤ count * size
  · rw [runOn_requestZeroed_of_overflow hbig] at hrun
    cases hrun
  · rw [runOn_requestZeroed_of_lt hbig] at hrun
    cases hrequest : (request (count * size)).runOn heap log with
    | error fault log₁ =>
      rw [hrequest] at hrun
      cases hrun
    | ok state log₁ =>
      rw [hrequest] at hrun
      obtain ⟨error | found, middle⟩ := state
      · cases hrun
      · cases hrun
        exact ⟨middle, rfl, rfl⟩

theorem Sound.requestZeroed_undoes (h : heap.Sound blocks chains) (count size : Nat) :
    heap.Undoes (requestZeroed count size) := by
  intro address after log log' hrun
  obtain ⟨middle, hplain, rfl⟩ := runOn_request_of_zeroed hrun
  rcases h.request_takes (count * size) log with
    ⟨error, _, _, hrequest, -⟩ | ⟨needed, found, whole, _, _, hneeded, hrequest, htakes⟩
  · rw [hrequest] at hplain
    cases hplain
  · rw [hrequest] at hplain
    cases hplain
    obtain ⟨taken, behind, hcarve⟩ := whole.exists_carve needed
    obtain ⟨front, rest, links, hlengthens, -⟩ := htakes.sound
    obtain ⟨hblock, -, hlarge, -⟩ := BlockInfo.carve_spec hcarve htakes.large
    obtain ⟨-, -, hroom, -⟩ := blockSize_spec hneeded
    obtain ⟨hzeroed, -⟩ := (htakes.grants hcarve).zero_spec (Nat.le_trans hroom hlarge)
    rw [← hblock]
    exact h.reverts hzeroed htakes.len_eq (bytesToGrow_eq_zero_or_ge needed found) hlengthens log'

theorem Sound.requestAligned_undoes (h : heap.Sound blocks chains) (align size : Nat) :
    heap.Undoes (requestAligned align size) := by
  intro address after log log' hrun
  by_cases hpower : IsPowerOfTwo align
  · by_cases hsmall : align ≤ alignment
    · rw [requestAligned_of_le hpower hsmall] at hrun
      exact h.request_undoes size address after log log' hrun
    · have hlarge := Nat.lt_of_not_le hsmall
      rcases h.requestAligned_of_lt hpower hlarge size log with
        ⟨error, _, _, hrequest, -⟩ | ⟨needed, block, middle, log₁, hneeded, htake⟩
      · rw [hrequest] at hrun
        cases hrun
      · obtain ⟨sought, found, whole, taken, _, before, behind, -, hrequest, hplaces, -, -, hgrants,
          -⟩ := h.requestAligned_places hpower hlarge hneeded htake
        rw [hrequest] at hrun
        cases hrun
        obtain ⟨infos, front, rest, hblocks, hlengthens, -⟩ := hplaces.exchanges.blocks
        rw [Pool.blocks_eq h.orderly.represents.laid] at hblocks
        cases hblocks
        exact h.reverts hgrants hplaces.exchanges.len_eq (bytesToGrow_eq_zero_or_ge sought found)
          hlengthens log'
  · rw [runOn_requestAligned_of_not hpower] at hrun
    cases hrun

end Heap

section Runs

variable {ρ : Type} [Region ρ] [GrowsInPlace ρ] {build : Build} {region : ρ} {heap : Heap ρ}
  {live : List Nat}

/-- Releasing what a request of any kind was just granted does not fail, and restores the blocks and
    the members of the lists. If the arena grew, a free block at its end is longer by that much, or
    there is a new one. -/
theorem undoes_of_reachable (h : Reachable build region heap live) :
    (∀ size, heap.Undoes (Heap.request size)) ∧
      (∀ count size, heap.Undoes (Heap.requestZeroed count size)) ∧
      ∀ align size, heap.Undoes (Heap.requestAligned align size) := by
  obtain ⟨blocks, chains, howns⟩ := h.owns
  exact ⟨howns.sound.request_undoes, howns.sound.requestZeroed_undoes,
    howns.sound.requestAligned_undoes⟩

/-- What was cut off of a free block for an alignment goes back to it. After a large request the
    arena stays longer. -/
theorem undoes_after_sampleCalls : ∃ heap,
    replay .checked sampleRegion sampleCalls = some (heap, [66112, 66048, 65696]) ∧
    (∃ after last log, (Heap.requestAligned 256 40).runOn heap #[] = .ok (.ok 66304, after) log ∧
      (Heap.release (some 66304)).runOn after log = .ok ((), last) log ∧
      heap.pool.Alike last.pool) ∧
    ∃ after last log, (Heap.request 8000).runOn heap #[] = .ok (.ok 66256, after) log ∧
      (Heap.release (some 66256)).runOn after log = .ok ((), last) log ∧
      last.pool.arena.len = heap.pool.arena.len + 8016 ∧ heap.Reverts last := by
  have heval : (replay .checked sampleRegion sampleCalls).map (fun state => (state.2,
      state.1.pool.arena.len, (Heap.requestAligned 256 40).grantOn state.1,
      (Heap.request 8000).grantOn state.1)) =
      some ([66112, 66048, 65696], 4128, some (66304, 4128), some (66256, 12144)) := by
    decide +kernel
  obtain ⟨heap, hreplay, hvalues⟩ := exists_of_replay heval
  simp only [Prod.mk.injEq] at hvalues
  obtain ⟨hbefore, haligned, hlarge⟩ := hvalues
  obtain ⟨after, log, hrun, hkept⟩ := RequestM.exists_of_grantOn haligned
  obtain ⟨grown, log', hrun', hgrown⟩ := RequestM.exists_of_grantOn hlarge
  obtain ⟨hplain, -, hundoes⟩ := undoes_of_reachable (reachable_of_replay hreplay)
  obtain ⟨last, hrelease, hlen, hreverts⟩ := hundoes _ _ _ _ _ _ hrun
  obtain ⟨ends, hrelease', hlen', hreverts'⟩ := hplain _ _ _ _ _ hrun'
  refine ⟨heap, hreplay, ⟨after, last, log, hrun, hrelease, hreverts.alike ?_⟩,
    grown, ends, log', hrun', hrelease', ?_, hreverts'⟩
  · rw [hlen, hkept, hbefore]
  · rw [hlen', hgrown, hbefore]

end Runs

end BoundaryTag
