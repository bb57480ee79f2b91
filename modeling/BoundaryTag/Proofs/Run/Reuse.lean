import BoundaryTag.Proofs.Heap.Release
import BoundaryTag.Proofs.Run.Step

namespace BoundaryTag

namespace Heap

variable {ρ : Type} [Region ρ] [GrowsInPlace ρ] {heap : Heap ρ} {front rest blocks : List BlockInfo}
  {chains : Chains} {info : BlockInfo} {size needed : Nat}

/-- A request is granted the free block at the head of its class, if that is large enough. -/
theorem Sound.request_of_head (h : heap.Sound blocks chains) (hinfo : info ∈ blocks)
    (hfree : info.allocated = false) (hneeded : blockSize size = .ok needed)
    (hle : needed ≤ info.size) {others : List Block}
    (hhead : chains (SizeClass.ofSize needed) = info.block :: others) (log : Array Event) :
    ∃ pool, heap.pool.take info.block needed = .ok pool ∧
      (request size).runOn heap log =
        .ok (.ok (heap.pool.arena.address info.block), { heap with pool }) log ∧
      pool.arena.len = heap.pool.arena.len := by
  obtain ⟨hmod, hge, -, -⟩ := blockSize_spec hneeded
  have hfit := h.orderly.represents.fit?_of_head hinfo hhead hle
  obtain ⟨front, rest, rfl⟩ := List.append_of_mem hinfo
  obtain ⟨pool, htake, -, hlen, hcarries⟩ := h.take_spec hfree hmod hge hle
  refine ⟨pool, htake, ?_, hlen⟩
  rw [← hcarries.address_eq]
  simp only [request, takeBlock, RequestM.runOn_bind, RequestM.runOn_liftM_refusal, hneeded,
    RequestM.runOn_get, RequestM.runOn_liftM, hfit, htake, RequestM.runOn_set, RequestM.runOn_pure]

/-- What requests are granted after `info` was released: all that the block `merged` can serve and
    whose class is that of `merged` are granted that block, and the arena does not grow. If it is no
    more than `info` and is not cut, heap and index are as before the release, but for the words
    that were links in between. -/
def Reuses (heap freed : Heap ρ) (front : List BlockInfo) (info : BlockInfo)
    (rest : List BlockInfo) (merged : BlockInfo) : Prop :=
  ∀ size needed log, blockSize size = .ok needed → needed ≤ merged.size →
    SizeClass.ofSize needed = SizeClass.ofSize merged.size →
    ∃ after, (request size).runOn freed log =
        .ok (.ok (freed.pool.arena.address merged.block), after) log ∧
      after.pool.arena.len = freed.pool.arena.len ∧
      ((∀ x ∈ front.getLast?, x.allocated = true) → (∀ y ∈ rest.head?, y.allocated = true) →
        merged.size - needed < smallestBlock →
        merged.block = info.block ∧
          ∃ memory, after.pool = heap.pool.rewrite heap.pool.index memory ∧
            heap.pool.arena.memory.Rewrites memory fun offset _ => info.block.HasLinkAt offset)

theorem Sound.release_reuses (h : heap.Sound (front ++ info :: rest) chains)
    (hallocated : info.allocated = true) (log : Array Event) :
    ∃ freed, (release (some (heap.pool.arena.address info.block))).runOn heap log =
        .ok ((), freed) log ∧
      freed.pool.arena.base = heap.pool.arena.base ∧
      freed.pool.blocks = .ok (mergeAt front { info with allocated := false } rest) ∧
      heap.Reuses freed front info rest
        (BlockInfo.merge (freeLast? front) { info with allocated := false } (freeFirst? rest)) := by
  obtain ⟨index, memory, hrelease, hrun, hfreed, -⟩ := h.release_middle hallocated log
  refine ⟨_, hrun, rfl, Pool.blocks_eq hfreed.orderly.represents.laid, ?_⟩
  intro size needed log hneeded hle hclass
  -- The merged block was listed last, so the search for its class looks at it first.
  obtain ⟨others, hhead⟩ :=
    @Chains.exists_mergeAt_push { info with allocated := false } chains rfl front rest
  rw [← hclass] at hhead
  obtain ⟨pool, htake, hrequest, hlen⟩ :=
    hfreed.request_of_head (by simp [mergeAt]) rfl hneeded hle hhead log
  refine ⟨_, hrequest, hlen, fun hprevious hnext hsmall => ?_⟩
  have hlast := freeLast?_eq_none_iff.2 hprevious
  have hfirst := freeFirst?_eq_none_iff.2 hnext
  rw [hlast, hfirst, BlockInfo.merge_none rfl] at htake hle hsmall ⊢
  obtain ⟨memory', hafter, hkept⟩ :=
    h.orderly.take_of_release hallocated hlast hfirst hle hsmall hrelease htake
  exact ⟨rfl, memory', hafter, hkept⟩

end Heap

section Runs

variable {ρ : Type} [Region ρ] [GrowsInPlace ρ] {build : Build} {region : ρ} {heap : Heap ρ}
  {live : List Nat}

/-- Releasing an address in use does not fail, and leaves a free block `merged` around the block
    that was released. The requests behind it that `merged` can serve, and whose class is its own,
    are granted it. -/
theorem reuses_of_reachable (h : Reachable build region heap live) {address : Nat}
    (haddress : address ∈ live) (log : Array Event) :
    ∃ freed front info rest merged blocks,
      heap.pool.blocks = .ok (front ++ info :: rest) ∧
      heap.pool.arena.address info.block = address ∧
      (Heap.release (some address)).runOn heap log = .ok ((), freed) log ∧
      freed.pool.arena.base = heap.pool.arena.base ∧
      freed.pool.blocks = .ok blocks ∧ merged ∈ blocks ∧ merged.allocated = false ∧
      merged.block.offset ≤ info.block.offset ∧ info.stop ≤ merged.stop ∧
      merged.size = spannedBytes (partsAt front info rest) ∧
      heap.Reuses freed front info rest merged := by
  obtain ⟨blocks, chains, howns⟩ := h.owns
  obtain ⟨info, kept, hheld, rfl, -⟩ := howns.exists_info haddress
  obtain ⟨front, rest, rfl, hallocated, -⟩ := exists_of_held_perm hheld
  obtain ⟨freed, hrun, hbase, hblocks, hreuses⟩ := howns.sound.release_reuses hallocated log
  have hmiddle := tiles_middle.1 howns.sound.orderly.represents.laid.tiles
  have htiles : Tiles frontBytes (front ++ { info with allocated := false } :: rest)
      heap.pool.arena.len := tiles_middle.2 hmiddle
  rw [split_mergeAt] at htiles
  obtain ⟨left, -, hseam⟩ := tiles_append.1 htiles
  obtain ⟨right, hparts, -⟩ := tiles_append.1 hseam
  obtain ⟨hstart, hstop⟩ := hparts.merge_around
  exact ⟨freed, front, info, rest, _, _, Pool.blocks_eq howns.sound.orderly.represents.laid, rfl,
    hrun, hbase, hblocks, by simp [mergeAt], rfl, hstart, hstop,
    (size_merge_eq _ _ _).trans (by simp [partsAt]), hreuses⟩

/-- A block of 64 bytes between two blocks in use is released and granted again. Only two words may
    have changed. -/
theorem reuses_after_sampleCalls : ∃ heap,
    replay .checked sampleRegion (sampleCalls ++ [.allocate 200]) =
      some (heap, [65824, 66112, 66048, 65696]) ∧
    ∃ freed after memory, (Heap.release (some 66048)).runOn heap #[] = .ok ((), freed) #[] ∧
      (Heap.request 40).runOn freed #[] = .ok (.ok 66048, after) #[] ∧
      after.pool = heap.pool.rewrite heap.pool.index memory ∧
      heap.pool.arena.memory.Rewrites memory fun offset _ => offset = 512 ∨ offset = 520 := by
  have heval : (replay .checked sampleRegion (sampleCalls ++ [.allocate 200])).map (fun state =>
      (state.2, state.1.pool.arena.base, (state.1.pool.usableSize 66048).toOption,
        (state.1.pool.arena.blockAt? 66048).map fun block => Except.toOption do
          let sides ← state.1.pool.freeNeighbours block
          return sides.1.isNone && sides.2.isNone)) =
      some ([65824, 66112, 66048, 65696], 65536, some 48, some (some true)) := by
    decide +kernel
  obtain ⟨heap, hreplay, hvalues⟩ := exists_of_replay heval
  simp only [Prod.mk.injEq] at hvalues
  obtain ⟨hbase, husable, hneighbours⟩ := hvalues
  have hreachable := reachable_of_replay hreplay
  have hlive : 66048 ∈ [65824, 66112, 66048, 65696] := by decide
  obtain ⟨freed, front, info, rest, merged, blocks, hblocks, haddress, hrun, hkept, -, -, -, -, -,
    hsize, hreuses⟩ := reuses_of_reachable hreachable hlive #[]
  obtain ⟨infos, chains, howns⟩ := hreachable.owns
  have hrepresents := howns.sound.orderly.represents
  obtain rfl : infos = front ++ info :: rest :=
    Except.ok.inj ((Pool.blocks_eq hrepresents.laid).symm.trans hblocks)
  have hinfo : info ∈ front ++ info :: rest := by simp
  have hblock := hrepresents.laid.blockAt?_address hinfo
  rw [haddress] at hblock
  have hlone : freeLast? front = none ∧ freeFirst? rest = none := by
    simpa [hblock, hrepresents.freeNeighbours_eq, Except.toOption] using hneighbours
  have hoffset : info.block.offset = 512 := by
    rw [Arena.address, hbase] at haddress
    omega
  have hinfoSize : info.size = 64 := by
    have hroom := howns.sound.usableSize_eq hinfo
    rw [haddress, toOption_eq_some.1 husable] at hroom
    have hroom := Except.ok.inj hroom
    omega
  have hmergedSize : merged.size = 64 := by
    rw [hsize, partsAt, hlone.1, hlone.2]
    exact hinfoSize
  have hneeded : blockSize 40 = .ok 64 := by decide
  obtain ⟨after, hrequest, -, hrestored⟩ :=
    hreuses 40 64 #[] hneeded (Nat.le_of_eq hmergedSize.symm) (by rw [hmergedSize])
  obtain ⟨hsame, memory, hafter, hwords⟩ := hrestored (freeLast?_eq_none_iff.1 hlone.1)
    (freeFirst?_eq_none_iff.1 hlone.2) (by rw [hmergedSize]; decide)
  refine ⟨heap, hreplay, freed, after, memory, hrun, ?_, hafter,
    hwords.mono fun offset _ hlink => ?_⟩
  · rw [hrequest, Arena.address, hkept, hsame, ← haddress]
    rfl
  · rwa [Block.HasLinkAt, hoffset] at hlink

end Runs

end BoundaryTag
