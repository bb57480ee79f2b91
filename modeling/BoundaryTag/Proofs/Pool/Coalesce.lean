import BoundaryTag.Pool.Coalesce
import BoundaryTag.Proofs.Pool.Merge

namespace BoundaryTag

namespace Pool

variable {pool : Pool} {front rest blocks : List BlockInfo} {chains : Chains}
  {info : BlockInfo} {before after : Option BlockInfo}

namespace Represents

theorem freeNeighbours_eq (h : pool.Represents (front ++ info :: rest) chains) :
    pool.freeNeighbours info.block =
      .ok ((freeLast? front).map BlockInfo.block, (freeFirst? rest).map BlockInfo.block) := by
  have hinfo : info ∈ front ++ info :: rest := by simp
  have hpreceding := h.laid.fits_preceding
  have hafter : (if ((rest.head?.map BlockInfo.tag).getD Tag.epilogue).free then
      some (info.block.skip info.size) else none) = (freeFirst? rest).map BlockInfo.block := by
    cases hfirst : rest.head? with
    | none =>
      simp only [freeFirst?, hfirst]
      rfl
    | some x =>
      have hx : x ∈ front ++ info :: rest := by simp [List.mem_of_mem_head? hfirst]
      rw [h.laid.skip_eq hfirst, Option.map_some, Option.getD_some, (h.laid.fits hx).free_tag]
      cases hfree : x.allocated <;> simp [freeFirst?, hfirst, hfree, Option.filter]
  rw [freeNeighbours, h.laid.precedingTag_eq, ok_bind, hpreceding.free_tag]
  simp only [h.laid.successor_eq hinfo, h.laid.header_next, hafter, ok_bind, pure_eq_ok]
  cases hlast : front.getLast? with
  | none => simp [freeLast?, hlast, prologueInfo]
  | some x =>
    rw [h.laid.predecessor?_eq hlast]
    cases hx : x.allocated <;> simp [freeLast?, hlast, hx, Option.filter]

theorem sizeOf?_eq (h : pool.Represents blocks chains) {found : Option BlockInfo}
    (hfound : ∀ x ∈ found, x ∈ blocks) :
    pool.arena.sizeOf? (found.map BlockInfo.block) =
      .ok ((found.map BlockInfo.size).getD 0) := by
  cases found with
  | none => rfl
  | some x =>
    have hx := hfound x rfl
    simp only [Option.map_some, Option.getD_some, Arena.sizeOf?, h.laid.header_eq hx, ok_bind,
      (h.laid.fits hx).size_tag, pure_eq_ok]

theorem unlist? (h : pool.Represents blocks chains) {found : Option BlockInfo}
    (hfound : ∀ x ∈ found, x ∈ blocks ∧ x.block ∈ chains (SizeClass.ofSize x.size)) :
    ∃ index memory, pool.unlist? (found.map BlockInfo.block) = .ok (pool.rewrite index memory) ∧
      Represents (pool.rewrite index memory) blocks
        (chains.without (found.map BlockInfo.block).toList) ∧
      pool.arena.memory.Rewrites memory fun offset word =>
        chains.HasLinkAt offset ∧ word.toNat % 16 = 0 := by
  cases found with
  | none => exact ⟨_, _, rfl, by simpa using Chains.without_nil ▸ h, .refl _ _⟩
  | some x => exact h.unlist (hfound x rfl).1 (hfound x rfl).2

/-- The parts of a merge leave their lists one by one. -/
theorem unlist_parts
    (h : pool.Represents (front ++ (before.toList ++ info :: after.toList ++ rest)) chains)
    (hlisted : ∀ x ∈ before.toList ++ info :: after.toList,
      x.block ∈ chains (SizeClass.ofSize x.size)) :
    ∃ first second index memory, pool.unlist info.block = .ok first ∧
      first.unlist? (after.map BlockInfo.block) = .ok second ∧
      second.unlist? (before.map BlockInfo.block) = .ok (pool.rewrite index memory) ∧
      Represents (pool.rewrite index memory)
        (front ++ (before.toList ++ info :: after.toList ++ rest))
        (chains.without (mergedBlocks before info after)) ∧
      pool.arena.memory.Rewrites memory fun offset word =>
        chains.HasLinkAt offset ∧ word.toNat % 16 = 0 := by
  obtain ⟨hfirst, hothers⟩ := List.nodup_cons.1 (h.laid.tiles.nodup_mergedBlocks rfl)
  have hapart := (List.nodup_append.1 hothers).2.2
  obtain ⟨index₁, memory₁, hunlist₁, h₁, hchange₁⟩ :=
    h.unlist (by simp) (hlisted info (by simp))
  have hafter : ∀ x ∈ after, x ∈ front ++ (before.toList ++ info :: after.toList ++ rest) ∧
      x.block ∈ chains.without [info.block] (SizeClass.ofSize x.size) := by
    rintro x rfl
    refine ⟨by simp, Chains.mem_without.2 ⟨hlisted x (by simp), fun hgone => hfirst ?_⟩⟩
    simp [List.mem_singleton.1 hgone]
  obtain ⟨index₂, memory₂, hunlist₂, h₂, hchange₂⟩ := h₁.unlist? hafter
  have hbefore : ∀ x ∈ before, x ∈ front ++ (before.toList ++ info :: after.toList ++ rest) ∧
      x.block ∈ (chains.without [info.block]).without (after.map BlockInfo.block).toList
        (SizeClass.ofSize x.size) := by
    rintro x rfl
    rw [Chains.without_without]
    refine ⟨by simp, Chains.mem_without.2 ⟨hlisted x (by simp), fun hgone => ?_⟩⟩
    rcases List.mem_append.1 hgone with hgone | hgone
    · apply hfirst
      simp [List.mem_singleton.1 hgone]
    · exact hapart x.block hgone x.block (by simp) rfl
  obtain ⟨index₃, memory₃, hunlist₃, h₃, hchange₃⟩ := h₂.unlist? hbefore
  rw [Chains.without_without, Chains.without_without] at h₃
  refine ⟨_, _, index₃, memory₃, hunlist₁, hunlist₂, hunlist₃, h₃,
    hchange₁.trans (.trans (hchange₂.mono ?_) (hchange₃.mono ?_))⟩
  · exact fun offset word hlink => hlink.imp_left fun hlink => hlink.of_without
  · exact fun offset word hlink => hlink.imp_left fun hlink => hlink.of_without.of_without

/-- A merged block takes the place of its parts and is listed. -/
theorem list_merged
    (h : pool.Represents (front ++ (before.toList ++ info :: after.toList ++ rest)) chains)
    (hgone : ∀ x ∈ before.toList ++ info :: after.toList, ∀ sizeClass,
      x.block ∉ chains sizeClass) :
    ∃ tagged index memory,
      pool.putTags (BlockInfo.merge before info after).block
        (BlockInfo.merge before info after).tag = .ok tagged ∧
      tagged.enlist (BlockInfo.merge before info after).block = .ok (pool.rewrite index memory) ∧
      Represents (pool.rewrite index memory) (front ++ BlockInfo.merge before info after :: rest)
        (chains.push (SizeClass.ofSize (BlockInfo.merge before info after).size)
          (BlockInfo.merge before info after).block) ∧
      pool.arena.memory.Rewrites memory fun offset word =>
        (chains.HasLinkAt offset ∨ ∃ x ∈ before.toList ++ info :: after.toList,
          x.block.HasLinkAt offset ∨ x.HasTagAt offset) ∧ word.toNat % 16 = 0 := by
  have hmem : ∀ x ∈ before.toList ++ info :: after.toList,
      x ∈ front ++ (before.toList ++ info :: after.toList ++ rest) := fun x hx =>
    List.mem_append_right _ (List.mem_append_left _ hx)
  have htiles : Tiles frontBytes
      (front ++ ([BlockInfo.merge before info after] ++ rest)) pool.arena.len :=
    h.laid.tiles.replace fun _ _ => Tiles.merge
  have hfits : (BlockInfo.merge before info after).Fits pool.arena.len :=
    (htiles.liesIn rfl (by simp)).fits (Nat.le_refl _) h.laid.short
  have htags : ∀ offset, (BlockInfo.merge before info after).HasTagAt offset →
      ∃ x ∈ before.toList ++ info :: after.toList, x.HasTagAt offset := by
    obtain ⟨seam, -, hseam⟩ := tiles_append.1 h.laid.tiles
    obtain ⟨right, hparts, -⟩ := tiles_append.1 hseam
    exact fun offset => BlockInfo.exists_tag_of_merge hparts
  obtain ⟨part, hpart, hblock⟩ := BlockInfo.exists_block_merge before info after
  have hput := pool.arena.memory.rewrites_putTags hfits
  have hreplaced := h.replace (pool.arena.memory.putTags (BlockInfo.merge before info after))
    [BlockInfo.merge before info after] hgone
    (hput.mono (by
      rintro offset word ⟨htag, -⟩
      obtain ⟨x, hx, htag⟩ := htags offset htag
      exact ⟨x, hx, (h.laid.fits (hmem x hx)).covers_tag htag⟩))
    (fun _ _ => Tiles.merge)
    (by
      intro x hx
      rw [List.mem_singleton.1 hx]
      exact pool.arena.memory.tagged_putTags hfits)
  have hmerged : BlockInfo.merge before info after ∈
      front ++ ([BlockInfo.merge before info after] ++ rest) := by simp
  obtain ⟨index, memory, henlist, hlisted, hchange⟩ :=
    hreplaced.enlist hmerged rfl (hblock ▸ hgone part hpart)
  refine ⟨_, index, memory, pool.putTags_eq hfits, henlist, hlisted,
    (hput.mono ?_).trans (hchange.mono ?_)⟩
  · rintro offset word ⟨htag, rfl⟩
    obtain ⟨x, hx, htag⟩ := htags offset htag
    exact ⟨.inr ⟨x, hx, .inr htag⟩, hfits.tag_mod rfl⟩
  · rintro offset word ⟨⟨sizeClass, block, hmember, hlink⟩, hword⟩
    refine ⟨?_, hword⟩
    rcases Chains.mem_push.1 hmember with ⟨-, rfl⟩ | hmember
    · exact .inr ⟨part, hpart, .inl (hblock ▸ hlink)⟩
    · exact .inl ⟨sizeClass, block, hmember, hlink⟩

/-- Merging with at least one free neighbour. -/
theorem coalesce_of_neighbour
    (h : pool.Represents (front ++ (before.toList ++ info :: after.toList ++ rest)) chains)
    (hneighbours : pool.freeNeighbours info.block =
      .ok (before.map BlockInfo.block, after.map BlockInfo.block))
    (hsome : ¬ (before = none ∧ after = none))
    (hlisted : ∀ x ∈ before.toList ++ info :: after.toList,
      x.block ∈ chains (SizeClass.ofSize x.size)) :
    ∃ index memory, pool.coalesce info.block =
        .ok ((BlockInfo.merge before info after).block, pool.rewrite index memory) ∧
      Represents (pool.rewrite index memory)
        (front ++ BlockInfo.merge before info after :: rest) (chains.merge before info after) ∧
      pool.arena.memory.Rewrites memory fun offset word =>
        (chains.HasLinkAt offset ∨
          ∃ x ∈ before.toList ++ info :: after.toList, x.HasTagAt offset) ∧
          word.toNat % 16 = 0 := by
  obtain ⟨first, second, index₁, memory₁, hfirst, hsecond, hthird, h₁, hchange₁⟩ :=
    h.unlist_parts hlisted
  obtain ⟨tagged, index₂, memory₂, hputTags, henlist, h₂, hchange₂⟩ := h₁.list_merged
    fun x hx sizeClass hblock => (Chains.mem_without.1 hblock).2 (mem_mergedBlocks hx)
  have hmerged : (BlockInfo.merge before info after).Fits pool.arena.len := h₂.laid.fits (by simp)
  refine ⟨index₂, memory₂, ?_, ?_, (hchange₁.mono ?_).trans (hchange₂.mono ?_)⟩
  · have hinfo : info ∈ front ++ (before.toList ++ info :: after.toList ++ rest) := by simp
    have hbefore : ∀ x ∈ before, x ∈ front ++ (before.toList ++ info :: after.toList ++ rest) := by
      rintro x rfl
      simp
    have hafter : ∀ x ∈ after, x ∈ front ++ (before.toList ++ info :: after.toList ++ rest) := by
      rintro x rfl
      simp
    have hsizes : info.size + ((before.map BlockInfo.size).getD 0 +
        (after.map BlockInfo.size).getD 0) < UInt64.size := hmerged.size_lt
    simp only [Pool.coalesce, hneighbours, h.laid.header_eq hinfo, (h.laid.fits hinfo).size_tag,
      h.sizeOf?_eq hbefore, h.sizeOf?_eq hafter, ok_bind]
    rw [if_neg (by simpa using hsome), Build.add_eq_ok _ (by omega), ok_bind,
      Build.add_eq_ok _ hsizes, ok_bind, hfirst, ok_bind, hsecond, ok_bind, hthird, ok_bind]
    change (Pool.putTags _ (BlockInfo.merge before info after).block
      (BlockInfo.merge before info after).tag >>= _) = _
    rw [hputTags, ok_bind]
    change (Pool.enlist _ (BlockInfo.merge before info after).block >>= _) = _
    rw [henlist]
    rfl
  · rw [Chains.merge, if_neg hsome]
    exact h₂
  · exact fun offset word hlink => hlink.imp_left .inl
  · rintro offset word ⟨hlink | ⟨x, hx, hlink | htag⟩, hword⟩
    · exact ⟨.inl hlink.of_without, hword⟩
    · exact ⟨.inl ⟨_, x.block, hlisted x hx, hlink⟩, hword⟩
    · exact ⟨.inr ⟨x, hx, htag⟩, hword⟩

/-- Without a free neighbour, nothing happens. -/
theorem coalesce_of_lone (h : pool.Represents blocks chains) (hinfo : info ∈ blocks)
    (hneighbours : pool.freeNeighbours info.block = .ok (none, none)) :
    pool.coalesce info.block = .ok (info.block, pool) := by
  simp [Pool.coalesce, hneighbours, h.laid.header_eq hinfo]

/-- Merging a listed free block with its free neighbours. No words change but the tags of the parts
    and links, and each of these to a multiple of 16. -/
theorem coalesce (h : pool.Represents (front ++ info :: rest) chains)
    (hfree : info.allocated = false)
    (hlisted : ∀ x ∈ partsAt front info rest, x.block ∈ chains (SizeClass.ofSize x.size)) :
    ∃ index memory, pool.coalesce info.block =
        .ok ((BlockInfo.merge (freeLast? front) info (freeFirst? rest)).block,
          pool.rewrite index memory) ∧
      Represents (pool.rewrite index memory) (mergeAt front info rest)
        (chains.mergeAt front info rest) ∧
      pool.arena.memory.Rewrites memory fun offset word =>
        (chains.HasLinkAt offset ∨ ∃ x ∈ partsAt front info rest, x.HasTagAt offset) ∧
          word.toNat % 16 = 0 := by
  have hneighbours := h.freeNeighbours_eq
  by_cases hlone : freeLast? front = none ∧ freeFirst? rest = none
  · rw [hlone.1, hlone.2] at hneighbours
    refine ⟨pool.index, pool.arena.memory, ?_, ?_, .refl _ _⟩
    · rw [h.coalesce_of_lone (by simp) hneighbours, hlone.1, hlone.2, BlockInfo.merge_none hfree]
      rfl
    · rw [chains.mergeAt_alone hlone.1 hlone.2, BoundaryTag.mergeAt_alone hfree hlone.1 hlone.2]
      exact h
  · rw [split_mergeAt] at h
    exact h.coalesce_of_neighbour hneighbours hlone hlisted

/-- Freeing and merging a block stays within free blocks and that block. -/
theorem loose_of_release (h : pool.Represents (front ++ info :: rest) chains)
    {sizeClass : SizeClass} {offset : Nat}
    (hchange : (chains.push sizeClass info.block).HasLinkAt offset ∨
      ∃ x ∈ partsAt front { info with allocated := false } rest, x.HasTagAt offset) :
    Loose (front ++ info :: rest) offset ∨ info.Covers offset := by
  rcases hchange with ⟨other, block, hblock, hlink⟩ | ⟨x, hx, htag⟩
  · rcases Chains.mem_push.1 hblock with ⟨-, rfl⟩ | hblock
    · exact .inr (h.laid.liesIn_middle.holds_link hlink).covers
    · exact .inl (h.loose_of_link ⟨other, block, hblock, hlink⟩)
  · have hfree : x.allocated = false := free_of_mem_partsAt rfl hx
    have hplace := mem_of_mem_partsAt hx
    rw [List.mem_append, List.mem_cons, or_left_comm] at hplace
    rcases hplace with rfl | hside
    · exact .inr (h.laid.fits_middle.covers_tag htag)
    · have hmem : x ∈ front ++ info :: rest := by
        rcases hside with hside | hside <;> simp [hside]
      exact .inl ⟨x, hmem, hfree, (h.laid.fits hmem).covers_tag htag⟩

/-- If the block was free but not listed, all of that is within free blocks. -/
theorem loose_of_reclaim (h : pool.Represents (front ++ info :: rest) chains)
    (hfree : info.allocated = false) {sizeClass : SizeClass} {offset : Nat}
    (hchange : (chains.push sizeClass info.block).HasLinkAt offset ∨
      ∃ x ∈ partsAt front info rest, x.HasTagAt offset) :
    Loose (front ++ info :: rest) offset := by
  obtain ⟨block, size, allocated⟩ := info
  obtain rfl : allocated = false := hfree
  rcases h.loose_of_release hchange with hloose | hcovers
  · exact hloose
  · exact ⟨_, by simp, rfl, hcovers⟩

end Represents

/-- A pool in the middle of an operation: all is as between operations, but for one free block that
    may have free neighbours. -/
structure Unmerged (pool : Pool) (front : List BlockInfo) (info : BlockInfo)
    (rest : List BlockInfo) (chains : Chains) : Prop where
  represents : pool.Represents (front ++ info :: rest) chains
  free : info.allocated = false
  listed : ∀ x ∈ front ++ info :: rest, x.allocated = false →
    x.block ∈ chains (SizeClass.ofSize x.size)
  settled_front : Settled front
  settled_rest : Settled rest

/-- Merging that block leaves an orderly pool. -/
theorem Unmerged.coalesce (h : pool.Unmerged front info rest chains) :
    ∃ index memory, pool.coalesce info.block =
        .ok ((BlockInfo.merge (freeLast? front) info (freeFirst? rest)).block,
          pool.rewrite index memory) ∧
      Orderly (pool.rewrite index memory) (mergeAt front info rest)
        (chains.mergeAt front info rest) ∧
      pool.arena.memory.Rewrites memory fun offset word =>
        (chains.HasLinkAt offset ∨ ∃ x ∈ partsAt front info rest, x.HasTagAt offset) ∧
          word.toNat % 16 = 0 := by
  have hparts : ∀ x ∈ partsAt front info rest, x.block ∈ chains (SizeClass.ofSize x.size) :=
    fun x hx => h.listed x (mem_of_mem_partsAt hx) (free_of_mem_partsAt h.free hx)
  obtain ⟨index, memory, hcoalesce, hafter, hchange⟩ := h.represents.coalesce h.free hparts
  exact ⟨index, memory, hcoalesce, ⟨hafter, Tidy.mergeAt h.represents.laid.tiles h.listed h.free
    h.settled_front h.settled_rest⟩, hchange⟩

end Pool

end BoundaryTag
