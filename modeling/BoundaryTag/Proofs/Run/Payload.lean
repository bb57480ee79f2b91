import BoundaryTag.Proofs.Pool.Walk
import BoundaryTag.Proofs.Run.Step

namespace BoundaryTag

/-- The words that the heap keeps for itself: the tags of the prologue and of every block, the
    epilogue, and the links in free blocks. -/
def Pool.Reserves (pool : Pool) (blocks : List BlockInfo) (offset : Nat) : Prop :=
  prologueInfo.HasTagAt offset ∨ offset + 8 = pool.arena.len ∨ ∃ info ∈ blocks,
    info.HasTagAt offset ∨ info.allocated = false ∧ info.block.HasLinkAt offset

namespace Heap

variable {ρ : Type} [Region ρ]

/-- `place` is one of the bytes for use from `address` on. -/
def Lends (heap : Heap ρ) (address place : Nat) : Prop :=
  ∃ usable, heap.pool.usableSize address = .ok usable ∧
    address ≤ place ∧ place < address + usable

/-- The bytes for use from each address on lie in the region, apart from those from other addresses
    on and from the words that the heap keeps for itself. -/
structure Separates (heap : Heap ρ) (live : List Nat) : Prop where
  nodup : live.Nodup
  sized : ∀ p ∈ live, ∃ usable, heap.pool.usableSize p = .ok usable ∧ 16 ≤ usable
  inside : ∀ p ∈ live, ∀ place, heap.Lends p place → Region.contains heap.region place
  apart : ∀ p ∈ live, ∀ q ∈ live, p ≠ q → ∀ place, heap.Lends p place → ¬ heap.Lends q place
  off_reserved : ∃ blocks, heap.pool.blocks = .ok blocks ∧
    ∀ p ∈ live, ∀ place, heap.Lends p place → ∀ offset, heap.pool.Reserves blocks offset →
      place < heap.pool.arena.base + offset ∨ heap.pool.arena.base + offset + 8 ≤ place

/-- From `address` on, as many bytes are for use as before, and they are what they were. -/
def Preserves (heap after : Heap ρ) (address : Nat) : Prop :=
  ∃ usable, heap.pool.usableSize address = .ok usable ∧
    after.pool.usableSize address = .ok usable ∧
    ∀ i < usable, after.pool.arena.byte (address + i) = heap.pool.arena.byte (address + i)

variable [GrowsInPlace ρ] {heap after : Heap ρ} {live left : List Nat}
  {answer : Option Nat} {blocks before kept : List BlockInfo} {chains : Chains} {info : BlockInfo}
  {place : Nat}

/-- The bytes for use in a block are those between its tags. -/
theorem Sound.lends_iff (h : heap.Sound blocks chains) (hinfo : info ∈ held blocks) :
    heap.Lends (heap.pool.arena.address info.block) place ↔
      ∃ offset, place = heap.pool.arena.base + offset ∧ info.HoldsAt offset := by
  have hmem := (mem_held.1 hinfo).1
  have hsize := (h.orderly.represents.laid.liesIn hmem).size_ge
  rw [Lends, h.usableSize_eq hmem]
  simp only [Except.ok.injEq, exists_eq_left', Arena.address, BlockInfo.HoldsAt, BlockInfo.stop]
  constructor
  · rintro ⟨hlow, hhigh⟩
    exact ⟨place - heap.pool.arena.base, by omega, by omega, by omega⟩
  · rintro ⟨offset, rfl, hlow, hhigh⟩
    omega

/-- A block in use does not overlap what the heap keeps for itself. -/
theorem Sound.apart_of_reserves (h : heap.Sound blocks chains) (hinfo : info ∈ held blocks)
    {offset : Nat} (hreserved : heap.pool.Reserves blocks offset) :
    offset + 8 ≤ info.block.offset ∨ info.stop ≤ offset + 16 := by
  obtain ⟨hmem, hallocated⟩ := mem_held.1 hinfo
  have hlaid := h.orderly.represents.laid
  have hlies := hlaid.liesIn hmem
  have hlow := hlies.start_le
  have hstop := hlies.stop_le
  rcases hreserved with hfront | hend | ⟨other, hother, htag | ⟨hfree, hlink⟩⟩
  · have := offset_lt_of_prologue_tag hfront
    omega
  · omega
  · by_cases heq : info = other
    · subst heq
      simp only [BlockInfo.HasTagAt] at htag
      omega
    · have hapart := hlaid.tiles.apart hmem hother heq
      have hsize := (hlaid.liesIn hother).size_ge
      simp only [BlockInfo.HasTagAt, BlockInfo.stop] at htag hapart ⊢
      omega
  · have hne : info ≠ other := by
      rintro rfl
      rw [hallocated] at hfree
      cases hfree
    have hapart := hlaid.tiles.apart hmem hother hne
    have hsize := (hlaid.liesIn hother).size_ge
    simp only [Block.HasLinkAt, BlockInfo.stop] at hlink hapart ⊢
    omega

theorem Owns.separates (h : heap.Owns live blocks chains) : heap.Separates live := by
  have hlaid := h.sound.orderly.represents.laid
  refine ⟨h.nodup, fun p hp => ?_, fun p hp place hlends => ?_,
    fun p hp q hq hne place hlends hlent => ?_,
    blocks, Pool.blocks_eq hlaid, fun p hp place hlends offset hreserved => ?_⟩
  · obtain ⟨info, hinfo, rfl⟩ := h.exists_held hp
    have hsize := (hlaid.liesIn (mem_held.1 hinfo).1).size_ge
    exact ⟨_, h.sound.usableSize_eq (mem_held.1 hinfo).1, by omega⟩
  · obtain ⟨info, hinfo, rfl⟩ := h.exists_held hp
    obtain ⟨offset, rfl, -, hhigh⟩ := (h.sound.lends_iff hinfo).1 hlends
    have hstop := (hlaid.liesIn (mem_held.1 hinfo).1).stop_le
    have hlen := h.sound.len_eq
    simp only [Region.contains, ← h.sound.base_eq, Bool.and_eq_true, decide_eq_true_eq]
    omega
  · obtain ⟨info, hinfo, rfl⟩ := h.exists_held hp
    obtain ⟨other, hother, rfl⟩ := h.exists_held hq
    obtain ⟨offset, rfl, hholds⟩ := (h.sound.lends_iff hinfo).1 hlends
    obtain ⟨offset', hplace, hheld⟩ := (h.sound.lends_iff hother).1 hlent
    obtain rfl := Nat.add_left_cancel hplace
    have heq := hlaid.tiles.eq_of_covers (mem_held.1 hinfo).1 (mem_held.1 hother).1 hholds.covers
      hheld.covers
    exact hne (by rw [heq])
  · obtain ⟨info, hinfo, rfl⟩ := h.exists_held hp
    obtain ⟨offset', rfl, hlow, hhigh⟩ := (h.sound.lends_iff hinfo).1 hlends
    have hapart := h.sound.apart_of_reserves hinfo hreserved
    omega

/-- A block that is carried over keeps its address, its size and its bytes. -/
theorem Carries.preserves {written infos : List BlockInfo} {links : Chains}
    (h : heap.Carries after kept written) (hsound : heap.Sound blocks chains)
    (hafter : after.Sound infos links) (hinfo : info ∈ blocks) (hstays : info ∈ infos)
    (hkept : info ∈ kept) : heap.Preserves after (heap.pool.arena.address info.block) := by
  have hlies := hsound.orderly.represents.laid.liesIn hinfo
  have husable := hafter.usableSize_eq hstays
  rw [h.address_eq] at husable
  refine ⟨_, hsound.usableSize_eq hinfo, husable, ?_⟩
  intro i hi
  have hholds : info.HoldsAt (info.block.offset + i) := by
    simp only [BlockInfo.HoldsAt, BlockInfo.stop]
    omega
  have hplace : heap.pool.arena.address info.block + i - heap.pool.arena.base =
      info.block.offset + i := by
    unfold Arena.address
    omega
  rw [Arena.byte, Arena.byte, h.base_eq, hplace]
  exact (h.keeps info hkept).byte_eq hlies.aligned hholds

theorem Continues.preserves (h : heap.Continues after answer left before kept)
    (hsound : heap.Sound blocks chains) (hinfo : info ∈ held blocks) (hkept : info ∈ kept) :
    heap.Preserves after (heap.pool.arena.address info.block) := by
  obtain ⟨blocks', chains', hafter, hheld, hcarries, -⟩ := h
  exact hcarries.preserves hsound hafter.sound (mem_held.1 hinfo).1
    (mem_held.1 (hheld info hkept)).1 hkept

end Heap

section Runs

variable {build : Build} {region : UnreliableRegion BufferRegion} {heap : BufferHeap}
  {live : List Nat}

/-- The bytes of all addresses in use are apart from one another and from what the heap keeps for
    itself. A valid call answers, and those of the addresses that it is not about stay as they
    were. -/
theorem separated_of_reachable (h : Reachable build region heap live) :
    heap.Separates live ∧ ∀ call : Call, call.Valid heap live → ∀ log,
      ∃ answer after log', call.run.runOn heap log = .ok (answer, after) log' ∧
        ∀ address ∈ live, some address ≠ call.given? → heap.Preserves after address := by
  obtain ⟨blocks, chains, howns⟩ := h.owns
  refine ⟨howns.separates, fun call hvalid log => ?_⟩
  obtain ⟨answer, after, log', hrun, kept, hafter, hother⟩ := howns.call_spec hvalid log
  refine ⟨answer, after, log', hrun, fun address haddress hne => ?_⟩
  obtain ⟨info, hinfo, rfl⟩ := howns.exists_held haddress
  exact hafter.preserves howns.sound hinfo (hother info hinfo hne)

theorem separated_after_sampleCalls : ∃ heap,
    replay .checked sampleRegion sampleCalls = some (heap, [66112, 66048, 65696]) ∧
    heap.Separates [66112, 66048, 65696] ∧
    ∃ answer after log', (Call.release (some 66048)).run.runOn heap #[] =
        .ok (answer, after) log' ∧
      ∀ address ∈ [66112, 65696], heap.Preserves after address := by
  obtain ⟨heap, hreplay⟩ := replay_sampleCalls
  obtain ⟨hseparates, hcalls⟩ := separated_of_reachable (reachable_of_replay hreplay)
  have hvalid : (Call.release (some 66048)).Valid heap [66112, 66048, 65696] := by
    refine ⟨?_, trivial⟩
    rintro _ ⟨⟩
    decide
  obtain ⟨answer, after, log', hrun, hpreserves⟩ := hcalls _ hvalid #[]
  have hothers : ∀ address ∈ [66112, 65696], address ∈ [66112, 66048, 65696] ∧
      some address ≠ some 66048 := by
    decide
  refine ⟨heap, hreplay, hseparates, answer, after, log', hrun, fun address haddress => ?_⟩
  exact hpreserves address (hothers address haddress).1 (hothers address haddress).2

end Runs

end BoundaryTag
