import BoundaryTag.Proofs.FreeList.Edits
import BoundaryTag.Proofs.Pool.Walk
import BoundaryTag.Proofs.Run.Step

namespace BoundaryTag

namespace Pool

variable {pool : Pool} {front rest : List BlockInfo} {chains : Chains} {info : BlockInfo}

/-- The free block `info` and those of its neighbours that are free too make way for `merged`. The
    lists lose the parts and keep the order of the others. No words change but tags of the parts and
    links. Without a free neighbour nothing changes at all. -/
structure Merges (pool after : Pool) (front : List BlockInfo) (info : BlockInfo)
    (rest : List BlockInfo) (chains : Chains) (merged : BlockInfo) : Prop where
  start_eq : merged.block = ((freeLast? front).getD info).block
  size_eq : merged.size = spannedBytes (partsAt front info rest)
  free : merged.allocated = false
  blocks : ∃ before behind,
    pool.blocks = .ok (before ++ (partsAt front info rest ++ behind)) ∧
    after.blocks = .ok (before ++ merged :: behind)
  lists : ¬ (freeLast? front = none ∧ freeFirst? rest = none) →
    after.index.Mirrors after.arena
      ((chains.without ((partsAt front info rest).map BlockInfo.block)).push
        (SizeClass.ofSize merged.size) merged.block)
  words : pool.arena.memory.Rewrites after.arena.memory fun offset _ =>
    chains.HasLinkAt offset ∨ ∃ x ∈ partsAt front info rest, x.HasTagAt offset
  arena_eq : after.arena = { pool.arena with memory := after.arena.memory }
  alone : freeLast? front = none ∧ freeFirst? rest = none → merged = info ∧ after = pool
  orderly : ∃ blocks links, after.Orderly blocks links

/-- Merging the one free block of a pool that may have free neighbours does not fail, and its answer
    is where the merged block starts. -/
theorem merges_of_unmerged (h : pool.Unmerged front info rest chains) :
    ∃ merged after, pool.coalesce info.block = .ok (merged.block, after) ∧
      pool.Merges after front info rest chains merged := by
  obtain ⟨index, memory, hcoalesce, hafter, hchange⟩ := h.coalesce
  refine ⟨_, _, hcoalesce, ?_, size_merge_eq front info rest, rfl, ?_, ?_, ?_, rfl,
    ?_, ⟨_, _, hafter⟩⟩
  · cases freeLast? front <;> rfl
  · refine ⟨trimLast front, trimFirst rest, ?_, Pool.blocks_eq hafter.represents.laid⟩
    rw [Pool.blocks_eq h.represents.laid, split_mergeAt]
    rfl
  · intro hneighbour
    have hmirrors := hafter.represents.threads.mirrors
    rw [Chains.mergeAt, Chains.merge, if_neg hneighbour,
      Chains.without_perm (mergedBlocks_perm _ _ _)] at hmirrors
    exact hmirrors
  · exact hchange.mono fun _ _ => And.left
  · rintro ⟨hlast, hfirst⟩
    have hneighbours := h.represents.freeNeighbours_eq
    rw [hlast, hfirst] at hneighbours
    rw [h.represents.coalesce_of_lone (by simp) hneighbours] at hcoalesce
    obtain ⟨-, heq⟩ := Prod.mk.inj (Except.ok.inj hcoalesce)
    rw [hlast, hfirst, BlockInfo.merge_none h.free]
    exact ⟨rfl, heq.symm⟩

/-- Marks a block in use free and lists it, as a release does before it merges. -/
def offer (pool : Pool) (block : Block) : Except Fault Pool := do
  let tag ← pool.arena.header block
  let pool ← pool.putTags block (tag.setAllocated false)
  pool.enlist block

theorem Orderly.offer (h : pool.Orderly (front ++ info :: rest) chains)
    (hallocated : info.allocated = true) :
    ∃ listed, pool.offer info.block = .ok listed ∧
      listed.Unmerged front { info with allocated := false } rest
        (chains.push (SizeClass.ofSize info.size) info.block) := by
  have hinfo : info ∈ front ++ info :: rest := by simp
  have hunlisted := h.represents.not_listed hinfo hallocated
  obtain ⟨hfront, hrest, -⟩ := settled_middle.1 h.tidy.settled
  obtain ⟨tag, hheader, hsize, -⟩ := h.represents.header_eq hinfo
  obtain ⟨memory, hmark, hmarked, -⟩ := h.represents.mark hunlisted false
  obtain ⟨index, memory₂, henlist, hunmerged, -⟩ := hmarked.enlist_unmerged rfl hunlisted
    (fun x hx => h.tidy.listed x (by rcases hx with hx | hx <;> simp [hx])) hfront hrest
  refine ⟨_, ?_, hunmerged⟩
  have hlist : (pool.rewrite pool.index memory).enlist info.block = .ok _ := henlist
  simp only [Pool.offer, hheader, ok_bind, Tag.setAllocated, hsize, hmark, hlist]

/-- Between two free blocks, three blocks become one. -/
theorem merges_after_sampleCalls : ∃ heap listed info front rest chains,
    replay .checked sampleRegion sampleCalls = some (heap, [66112, 66048, 65696]) ∧
    heap.pool.arena.address info.block = 65696 ∧ heap.pool.offer info.block = .ok listed ∧
    listed.Unmerged front info rest chains ∧ (partsAt front info rest).length = 3 ∧
    ∃ merged after, listed.coalesce info.block = .ok (merged.block, after) ∧
      listed.Merges after front info rest chains merged := by
  have heval : (replay .checked sampleRegion sampleCalls).map (fun state => (state.2,
      (state.1.pool.arena.blockAt? 65696).map fun block => Except.toOption do
        let listed ← state.1.pool.offer block
        let sides ← listed.freeNeighbours block
        return sides.1.isSome && sides.2.isSome)) =
      some ([66112, 66048, 65696], some (some true)) := by
    decide +kernel
  obtain ⟨heap, hreplay, hneighbours⟩ := exists_of_replay heval
  obtain ⟨blocks, chains, howns⟩ := (reachable_of_replay hreplay).owns
  have hlive : 65696 ∈ [66112, 66048, 65696] := by decide
  obtain ⟨info, kept, hheld, haddress, -⟩ := howns.exists_info hlive
  obtain ⟨front, rest, rfl, hallocated, -⟩ := exists_of_held_perm hheld
  obtain ⟨listed, hoffer, hunmerged⟩ := howns.sound.orderly.offer hallocated
  have hinfo : info ∈ front ++ info :: rest := by simp
  have hblock := howns.sound.orderly.represents.laid.blockAt?_address hinfo
  have hfree := hunmerged.represents.freeNeighbours_eq
  rw [haddress] at hblock
  simp only [hblock, Option.map_some, hoffer, ok_bind, hfree] at hneighbours
  refine ⟨heap, listed, { info with allocated := false }, front, rest, _, hreplay, haddress, hoffer,
    hunmerged, ?_, merges_of_unmerged hunmerged⟩
  cases hlast : freeLast? front <;> cases hfirst : freeFirst? rest <;>
    simp_all [partsAt, Except.toOption]

end Pool

end BoundaryTag
