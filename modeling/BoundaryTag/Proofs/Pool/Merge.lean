import BoundaryTag.Proofs.Pool.Count

namespace BoundaryTag

/-- The free block that one to three neighbouring free blocks make. -/
def BlockInfo.merge (before : Option BlockInfo) (info : BlockInfo) (after : Option BlockInfo) :
    BlockInfo where
  block := (before.map BlockInfo.block).getD info.block
  size := info.size + ((before.map BlockInfo.size).getD 0 + (after.map BlockInfo.size).getD 0)
  allocated := false

/-- The blocks that a merge takes off their lists. -/
def mergedBlocks (before : Option BlockInfo) (info : BlockInfo) (after : Option BlockInfo) :
    List Block :=
  info.block :: ((after.map BlockInfo.block).toList ++ (before.map BlockInfo.block).toList)

/-- The lists after a merge. Without a free neighbour nothing is relisted. -/
def Chains.merge (chains : Chains) (before : Option BlockInfo) (info : BlockInfo)
    (after : Option BlockInfo) : Chains :=
  if before = none ∧ after = none then chains
  else
    let merged := BlockInfo.merge before info after
    (chains.without (mergedBlocks before info after)).push (SizeClass.ofSize merged.size)
      merged.block

/-- The last of `front`, if it is free. -/
def freeLast? (front : List BlockInfo) : Option BlockInfo :=
  front.getLast?.filter fun info => !info.allocated

/-- The first of `rest`, if it is free. -/
def freeFirst? (rest : List BlockInfo) : Option BlockInfo :=
  rest.head?.filter fun info => !info.allocated

section Merge

variable {before after : Option BlockInfo} {info : BlockInfo}

/-- The merged block starts where the first of its parts does. -/
theorem BlockInfo.exists_block_merge (before : Option BlockInfo) (info : BlockInfo)
    (after : Option BlockInfo) : ∃ x ∈ before.toList ++ info :: after.toList,
      x.block = (BlockInfo.merge before info after).block := by
  cases before with
  | none => exact ⟨info, by simp, rfl⟩
  | some x => exact ⟨x, by simp, rfl⟩

theorem BlockInfo.size_le_merge (before : Option BlockInfo) (info : BlockInfo)
    (after : Option BlockInfo) : info.size ≤ (BlockInfo.merge before info after).size :=
  Nat.le_add_right _ _

theorem mem_mergedBlocks {x : BlockInfo} (hx : x ∈ before.toList ++ info :: after.toList) :
    x.block ∈ mergedBlocks before info after := by
  simp only [List.mem_append, List.mem_cons, Option.mem_toList] at hx
  rcases hx with hx | rfl | hx
  · simp [mergedBlocks, hx]
  · simp [mergedBlocks]
  · simp [mergedBlocks, hx]

theorem exists_of_mem_mergedBlocks {block : Block} (h : block ∈ mergedBlocks before info after) :
    ∃ x ∈ before.toList ++ info :: after.toList, x.block = block := by
  simp only [mergedBlocks, List.mem_cons, List.mem_append, Option.mem_toList,
    Option.map_eq_some_iff] at h
  rcases h with rfl | ⟨x, hx, rfl⟩ | ⟨x, hx, rfl⟩
  · exact ⟨info, by simp, rfl⟩
  · exact ⟨x, by simp [hx], rfl⟩
  · exact ⟨x, by simp [hx], rfl⟩

theorem mergedBlocks_perm (before : Option BlockInfo) (info : BlockInfo)
    (after : Option BlockInfo) :
    (mergedBlocks before info after).Perm
      ((before.toList ++ info :: after.toList).map BlockInfo.block) := by
  have hswap : (before.toList ++ info :: after.toList).Perm
      (info :: (after.toList ++ before.toList)) := List.perm_append_comm
  simpa [mergedBlocks, Option.toList_map] using hswap.symm.map BlockInfo.block

/-- The parts of a merge are different blocks. -/
theorem Tiles.nodup_mergedBlocks {start stop : Nat} (hstart : start % 16 = 0)
    (h : Tiles start (front ++ (before.toList ++ info :: after.toList ++ rest)) stop) :
    (mergedBlocks before info after).Nodup := by
  rw [(mergedBlocks_perm before info after).nodup_iff]
  apply h.nodup_map_block hstart
  exact (List.sublist_append_left _ _).trans (List.sublist_append_right _ _)

theorem Tiles.merge {left right : Nat}
    (h : Tiles left (before.toList ++ info :: after.toList) right) :
    Tiles left [BlockInfo.merge before info after] right := by
  cases before <;> cases after <;>
    simp only [Option.toList, List.nil_append, List.cons_append, Tiles, BlockInfo.merge,
      BlockInfo.stop, alignment, smallestBlock, Option.map_none, Option.map_some, Option.getD_none,
      Option.getD_some] at h ⊢ <;> omega

/-- The merged block spans its parts. -/
theorem Tiles.merge_around {left right : Nat}
    (h : Tiles left (before.toList ++ info :: after.toList) right) :
    (BlockInfo.merge before info after).block.offset ≤ info.block.offset ∧
      info.stop ≤ (BlockInfo.merge before info after).stop := by
  obtain ⟨hfront, -, -, hrest⟩ := tiles_middle.1 h
  obtain ⟨hstart, -, -, hstop⟩ := h.merge
  have hend : (BlockInfo.merge before info after).stop = right := hstop
  rw [hstart, hend]
  exact ⟨hfront.le, hrest.le⟩

/-- The tags of the merged block are the first and the last of the tags of its parts. -/
theorem BlockInfo.exists_tag_of_merge {left right offset : Nat}
    (h : Tiles left (before.toList ++ info :: after.toList) right)
    (htag : (BlockInfo.merge before info after).HasTagAt offset) :
    ∃ x ∈ before.toList ++ info :: after.toList, x.HasTagAt offset := by
  rcases htag with hheader | hfooter
  · obtain ⟨x, hx, hblock⟩ := BlockInfo.exists_block_merge before info after
    exact ⟨x, hx, .inl (by rw [hblock, hheader])⟩
  · have hstop : (BlockInfo.merge before info after).stop = right := h.merge.2.2.2
    rw [hstop] at hfooter
    rw [tiles_append] at h
    obtain ⟨seam, -, -, -, -, hrest⟩ := h
    cases after with
    | none => exact ⟨info, by simp, .inr (by rw [hfooter, ← hrest])⟩
    | some x => exact ⟨x, by simp, .inr (by rw [hfooter, ← hrest.2.2.2])⟩

end Merge

section Neighbours

variable {front rest blocks : List BlockInfo} {info : BlockInfo} {chains : Chains}

/-- `front` without its last block, if that one is free. -/
def trimLast (front : List BlockInfo) : List BlockInfo :=
  if (freeLast? front).isSome then front.dropLast else front

/-- `rest` without its first block, if that one is free. -/
def trimFirst (rest : List BlockInfo) : List BlockInfo :=
  if (freeFirst? rest).isSome then rest.tail else rest

theorem mem_freeLast? : info ∈ freeLast? front ↔
    front.getLast? = some info ∧ info.allocated = false := by
  simp [freeLast?, Option.filter_eq_some_iff]

theorem mem_freeFirst? : info ∈ freeFirst? rest ↔
    rest.head? = some info ∧ info.allocated = false := by
  simp [freeFirst?, Option.filter_eq_some_iff]

theorem freeLast?_eq_none_iff :
    freeLast? front = none ↔ ∀ x ∈ front.getLast?, x.allocated = true := by
  simp [freeLast?, Option.filter_eq_none_iff]

theorem freeFirst?_eq_none_iff :
    freeFirst? rest = none ↔ ∀ y ∈ rest.head?, y.allocated = true := by
  simp [freeFirst?, Option.filter_eq_none_iff]

theorem trimLast_append (front : List BlockInfo) :
    trimLast front ++ (freeLast? front).toList = front := by
  cases hlast : freeLast? front with
  | none => simp [trimLast, hlast]
  | some x =>
    have hx := (mem_freeLast?.1 hlast).1
    simpa [trimLast, hlast] using List.dropLast_append_getLast? x hx

theorem trimFirst_append (rest : List BlockInfo) :
    (freeFirst? rest).toList ++ trimFirst rest = rest := by
  cases hfirst : freeFirst? rest with
  | none => simp [trimFirst, hfirst]
  | some x =>
    have hx := (mem_freeFirst?.1 hfirst).1
    cases rest with
    | nil => simp at hx
    | cons first rest =>
      obtain rfl : first = x := by simpa using hx
      simp [trimFirst, hfirst]

theorem Settled.allocated_trimLast (h : Settled front) :
    ∀ x ∈ (trimLast front).getLast?, x.allocated = true := by
  intro x hx
  cases hlast : freeLast? front with
  | none =>
    rw [trimLast, hlast] at hx
    exact freeLast?_eq_none_iff.1 hlast x (by simpa using hx)
  | some y =>
    have hy := (mem_freeLast?.1 hlast).2
    have hsplit := trimLast_append front
    rw [hlast, Option.toList_some] at hsplit
    rw [← hsplit, Settled, List.isChain_append] at h
    have hseam := h.2.2 x hx y (by simp)
    simpa [hy] using hseam

theorem Settled.allocated_trimFirst (h : Settled rest) :
    ∀ x ∈ (trimFirst rest).head?, x.allocated = true := by
  intro x hx
  cases hfirst : freeFirst? rest with
  | none =>
    rw [trimFirst, hfirst] at hx
    exact freeFirst?_eq_none_iff.1 hfirst x (by simpa using hx)
  | some y =>
    have hy := (mem_freeFirst?.1 hfirst).2
    have hsplit := trimFirst_append rest
    rw [hfirst, Option.toList_some, List.singleton_append] at hsplit
    rw [← hsplit, Settled, List.isChain_cons] at h
    have hseam := h.1 x hx
    simpa [hy] using hseam

theorem trimLast_eq_self (h : ∀ x ∈ front.getLast?, x.allocated = true) :
    trimLast front = front := by
  simp [trimLast, freeLast?_eq_none_iff.2 h]

theorem trimFirst_eq_self (h : ∀ y ∈ rest.head?, y.allocated = true) :
    trimFirst rest = rest := by
  simp [trimFirst, freeFirst?_eq_none_iff.2 h]

theorem freeLast?_of_allocated {x : BlockInfo} (hallocated : x.allocated = true)
    (front : List BlockInfo) : freeLast? (front ++ [x]) = none :=
  freeLast?_eq_none_iff.2 (by simpa using hallocated)

theorem trimLast_of_allocated {x : BlockInfo} (hallocated : x.allocated = true)
    (front : List BlockInfo) : trimLast (front ++ [x]) = front ++ [x] :=
  trimLast_eq_self (by simpa using hallocated)

theorem held_trimLast (front : List BlockInfo) : held (trimLast front) = held front := by
  have hsplit := trimLast_append front
  cases hlast : freeLast? front with
  | none => simp [trimLast, hlast]
  | some x =>
    rw [hlast, Option.toList_some] at hsplit
    conv => rhs; rw [← hsplit]
    simp [held_cons_of_free (mem_freeLast?.1 hlast).2]

theorem held_trimFirst (rest : List BlockInfo) : held (trimFirst rest) = held rest := by
  have hsplit := trimFirst_append rest
  cases hfirst : freeFirst? rest with
  | none => simp [trimFirst, hfirst]
  | some x =>
    rw [hfirst, Option.toList_some] at hsplit
    conv => rhs; rw [← hsplit]
    simp [held_cons_of_free (mem_freeFirst?.1 hfirst).2]

/-- The blocks after a merge around `info`. -/
def mergeAt (front : List BlockInfo) (info : BlockInfo) (rest : List BlockInfo) :
    List BlockInfo :=
  trimLast front ++ BlockInfo.merge (freeLast? front) info (freeFirst? rest) :: trimFirst rest

/-- The lists after a merge around `info`. -/
def Chains.mergeAt (chains : Chains) (front : List BlockInfo) (info : BlockInfo)
    (rest : List BlockInfo) : Chains :=
  chains.merge (freeLast? front) info (freeFirst? rest)

/-- A merge does not touch the blocks in use. -/
theorem held_mergeAt (front : List BlockInfo) (info : BlockInfo) (rest : List BlockInfo) :
    held (mergeAt front info rest) = held front ++ held rest := by
  rw [mergeAt, held_append, held_cons_of_free rfl, held_trimLast, held_trimFirst]

theorem mergeAt_nil (front : List BlockInfo) (info : BlockInfo) :
    mergeAt front info [] = trimLast front ++ [BlockInfo.merge (freeLast? front) info none] := rfl

theorem mergeAt_cons_of_allocated {x : BlockInfo} (hallocated : x.allocated = true)
    (front : List BlockInfo) (info : BlockInfo) (rest : List BlockInfo) :
    mergeAt front info (x :: rest) =
      (trimLast front ++ [BlockInfo.merge (freeLast? front) info none]) ++ x :: rest := by
  simp [mergeAt, freeFirst?, trimFirst, hallocated, Option.filter]

theorem mergeAt_of_allocated {x : BlockInfo} (hallocated : x.allocated = true)
    (front : List BlockInfo) (info : BlockInfo) (rest : List BlockInfo) :
    mergeAt (front ++ [x]) info rest =
      front ++ x :: BlockInfo.merge none info (freeFirst? rest) :: trimFirst rest := by
  simp [mergeAt, freeLast?_of_allocated hallocated, trimLast_of_allocated hallocated]

theorem Settled.mergeAt (hfront : Settled front) (hrest : Settled rest) (info : BlockInfo) :
    Settled (mergeAt front info rest) := by
  have hinit : Settled (trimLast front) := by
    have h := trimLast_append front ▸ hfront
    exact List.IsChain.left_of_append h
  have htail : Settled (trimFirst rest) := by
    have h := trimFirst_append rest ▸ hrest
    exact List.IsChain.right_of_append h
  refine List.isChain_append.2 ⟨hinit, List.isChain_cons.2 ⟨fun y hy => ?_, htail⟩, ?_⟩
  · exact .inr (hrest.allocated_trimFirst y hy)
  · exact fun x hx y _ => .inl (hfront.allocated_trimLast x hx)

/-- The parts of a merge in their places. -/
theorem split_mergeAt (front : List BlockInfo) (info : BlockInfo) (rest : List BlockInfo) :
    front ++ info :: rest = trimLast front ++
      ((freeLast? front).toList ++ info :: (freeFirst? rest).toList ++ trimFirst rest) := by
  have hfront := trimLast_append front
  have hrest := trimFirst_append rest
  calc front ++ info :: rest
    _ = (trimLast front ++ (freeLast? front).toList) ++
        info :: ((freeFirst? rest).toList ++ trimFirst rest) := by rw [hfront, hrest]
    _ = _ := by simp

/-- The blocks that a merge around `info` makes one: that block and its free neighbours. -/
def partsAt (front : List BlockInfo) (info : BlockInfo) (rest : List BlockInfo) :
    List BlockInfo :=
  (freeLast? front).toList ++ info :: (freeFirst? rest).toList

theorem mem_of_mem_partsAt {x : BlockInfo} (hx : x ∈ partsAt front info rest) :
    x ∈ front ++ info :: rest := by
  rw [split_mergeAt]
  exact List.mem_append_right _ (List.mem_append_left _ hx)

theorem free_of_mem_partsAt (hfree : info.allocated = false) {x : BlockInfo}
    (hx : x ∈ partsAt front info rest) : x.allocated = false := by
  simp only [partsAt, List.mem_append, List.mem_cons, Option.mem_toList] at hx
  rcases hx with hx | rfl | hx
  · exact (mem_freeLast?.1 hx).2
  · exact hfree
  · exact (mem_freeFirst?.1 hx).2

/-- No byte is lost to a merger, and none is gained. -/
theorem size_merge_eq (front : List BlockInfo) (info : BlockInfo) (rest : List BlockInfo) :
    (BlockInfo.merge (freeLast? front) info (freeFirst? rest)).size =
      spannedBytes (partsAt front info rest) := by
  cases hlast : freeLast? front <;> cases hfirst : freeFirst? rest <;>
    simp only [partsAt, BlockInfo.merge, hlast, hfirst, Option.map_none, Option.map_some,
      Option.getD_none, Option.getD_some, Option.toList_none, Option.toList_some,
      spannedBytes_append, spannedBytes_cons, spannedBytes_nil] <;>
    omega

theorem BlockInfo.merge_none (hfree : info.allocated = false) :
    BlockInfo.merge none info none = info := by
  cases info
  simp_all [BlockInfo.merge]

/-- Between blocks in use, a merge is none. -/
theorem mergeAt_alone (hfree : info.allocated = false) (hlast : freeLast? front = none)
    (hfirst : freeFirst? rest = none) : mergeAt front info rest = front ++ info :: rest := by
  rw [mergeAt, trimLast, trimFirst, hlast, hfirst, BlockInfo.merge_none hfree]
  rfl

theorem Chains.mergeAt_alone (chains : Chains) (hlast : freeLast? front = none)
    (hfirst : freeFirst? rest = none) : chains.mergeAt front info rest = chains :=
  if_pos ⟨hlast, hfirst⟩

/-- A block that was just listed is the head of its list, and so is what it is merged to. -/
theorem Chains.exists_mergeAt_push (chains : Chains) (hfree : info.allocated = false)
    (front rest : List BlockInfo) :
    ∃ others, (chains.push (SizeClass.ofSize info.size) info.block).mergeAt front info rest
        (SizeClass.ofSize (BlockInfo.merge (freeLast? front) info (freeFirst? rest)).size) =
      (BlockInfo.merge (freeLast? front) info (freeFirst? rest)).block :: others := by
  by_cases halone : freeLast? front = none ∧ freeFirst? rest = none
  · rw [Chains.mergeAt_alone _ halone.1 halone.2, halone.1, halone.2, BlockInfo.merge_none hfree]
    exact ⟨_, Chains.push_self _ _⟩
  · rw [Chains.mergeAt, Chains.merge, if_neg halone]
    exact ⟨_, Chains.push_self _ _⟩

/-- When a block is listed and then merged, its neighbours leave their lists, and what they all
    become is the head of its list. -/
theorem Chains.mergeAt_push (chains : Chains) (hfree : info.allocated = false)
    (hfresh : ∀ sizeClass, info.block ∉ chains sizeClass) (front rest : List BlockInfo) :
    (chains.push (SizeClass.ofSize info.size) info.block).mergeAt front info rest =
      (chains.without (((freeFirst? rest).map BlockInfo.block).toList ++
          ((freeLast? front).map BlockInfo.block).toList)).push
        (SizeClass.ofSize (BlockInfo.merge (freeLast? front) info (freeFirst? rest)).size)
        (BlockInfo.merge (freeLast? front) info (freeFirst? rest)).block := by
  by_cases halone : freeLast? front = none ∧ freeFirst? rest = none
  · rw [Chains.mergeAt_alone _ halone.1 halone.2, halone.1, halone.2, BlockInfo.merge_none hfree]
    exact congrArg (Chains.push · _ _) Chains.without_nil.symm
  · rw [Chains.mergeAt, Chains.merge, if_neg halone, mergedBlocks, ← List.singleton_append,
      ← Chains.without_without, Chains.without_push hfresh]

/-- The blocks before a block whose front was cut off: the part is merged with a free block before
    it. -/
def absorbLast (front : List BlockInfo) : (part : Option BlockInfo) → List BlockInfo
  | some part => trimLast front ++ [BlockInfo.merge (freeLast? front) part none]
  | none => front

/-- The blocks behind a block whose end was cut off: the part is merged with a free block behind
    it. -/
def absorbFirst : (part : Option BlockInfo) → (rest : List BlockInfo) → List BlockInfo
  | some part, rest => BlockInfo.merge none part (freeFirst? rest) :: trimFirst rest
  | none, rest => rest

theorem held_absorbLast (front : List BlockInfo) (part : Option BlockInfo) :
    held (absorbLast front part) = held front := by
  cases part with
  | none => rfl
  | some part => rw [absorbLast, held_append, held_cons_of_free rfl, held_trimLast, held_nil,
      List.append_nil]

/-- Behind a block in use, what is cut off stays by itself. -/
theorem absorbLast_eq {part : Option BlockInfo} (hfree : ∀ x ∈ part, x.allocated = false)
    (hfront : ∀ x ∈ front.getLast?, x.allocated = true) :
    absorbLast front part = front ++ part.toList := by
  cases part with
  | none => simp [absorbLast]
  | some part =>
    rw [absorbLast, trimLast_eq_self hfront, freeLast?_eq_none_iff.2 hfront,
      BlockInfo.merge_none (hfree part rfl), Option.toList_some]

/-- Whatever is free before a block in use becomes one block with what is cut off before it. -/
theorem exists_absorbFirst_eq {part remainder : Option BlockInfo}
    (hfree : ∀ x ∈ part, x.allocated = false) (hremainder : ∀ x ∈ remainder, x.allocated = false)
    (hrest : ∀ y ∈ rest.head?, y.allocated = true) :
    ∃ tail : Option BlockInfo, absorbFirst part (remainder.toList ++ rest) = tail.toList ++ rest ∧
      ∀ x ∈ tail, x.allocated = false := by
  cases part with
  | none => exact ⟨remainder, rfl, hremainder⟩
  | some part =>
    cases remainder with
    | none =>
      refine ⟨some part, ?_, hfree⟩
      change absorbFirst (some part) rest = _
      rw [absorbFirst, trimFirst_eq_self hrest, freeFirst?_eq_none_iff.2 hrest,
        BlockInfo.merge_none (hfree part rfl)]
      rfl
    | some remainder =>
      refine ⟨some (BlockInfo.merge none part (some remainder)), ?_, ?_⟩
      · simp [absorbFirst, freeFirst?, trimFirst, hremainder remainder rfl, Option.filter]
      · rintro _ ⟨⟩
        rfl

theorem Chains.mem_merge {before after : Option BlockInfo} {sizeClass : SizeClass} {block : Block}
    (hmem : block ∈ chains sizeClass) (hout : block ∉ mergedBlocks before info after) :
    block ∈ chains.merge before info after sizeClass := by
  unfold Chains.merge
  split
  · exact hmem
  · exact Chains.mem_push.2 (.inr (Chains.mem_without.2 ⟨hmem, hout⟩))

theorem Chains.merge_block_mem {before after : Option BlockInfo} (hfree : info.allocated = false)
    (hmem : info.block ∈ chains (SizeClass.ofSize info.size)) :
    (BlockInfo.merge before info after).block ∈
      chains.merge before info after
        (SizeClass.ofSize (BlockInfo.merge before info after).size) := by
  unfold Chains.merge
  split
  · obtain ⟨rfl, rfl⟩ := ‹before = none ∧ after = none›
    rwa [BlockInfo.merge_none hfree]
  · exact Chains.mem_push.2 (.inl ⟨rfl, rfl⟩)

/-- The blocks around a merge are not among those that are merged. -/
theorem not_mem_mergedBlocks {stop : Nat} {x : BlockInfo}
    (htiles : Tiles frontBytes (front ++ info :: rest) stop)
    (hx : x ∈ trimLast front ∨ x ∈ trimFirst rest) :
    x.block ∉ mergedBlocks (freeLast? front) info (freeFirst? rest) := by
  intro hmem
  obtain ⟨part, hpart, heq⟩ := exists_of_mem_mergedBlocks hmem
  rw [split_mergeAt] at htiles
  obtain rfl : x = part := htiles.eq_of_block_eq rfl
    (by rcases hx with hx | hx <;> simp [hx])
    (List.mem_append_right _ (List.mem_append_left _ hpart)) heq.symm
  obtain ⟨-, hnodup, hapart⟩ := List.nodup_append.1 htiles.nodup
  rcases hx with hx | hx
  · exact hapart x hx x (List.mem_append_left _ hpart) rfl
  · exact (List.nodup_append.1 hnodup).2.2 x hpart x hx rfl

/-- A merge around the only block that may have free neighbours leaves a tidy pool. -/
theorem Tidy.mergeAt {stop : Nat} (htiles : Tiles frontBytes (front ++ info :: rest) stop)
    (hlisted : ∀ x ∈ front ++ info :: rest, x.allocated = false →
      x.block ∈ chains (SizeClass.ofSize x.size))
    (hfree : info.allocated = false) (hfront : Settled front) (hrest : Settled rest) :
    Tidy (mergeAt front info rest) (chains.mergeAt front info rest) := by
  refine ⟨fun x hx hxfree => ?_, hfront.mergeAt hrest info⟩
  have hside : x ∈ trimLast front ∨ x ∈ trimFirst rest →
      x.block ∈ chains.mergeAt front info rest (SizeClass.ofSize x.size) := by
    intro hside
    refine Chains.mem_merge (hlisted x ?_ hxfree) (not_mem_mergedBlocks htiles hside)
    rw [split_mergeAt]
    rcases hside with hside | hside <;> simp [hside]
  rcases List.mem_append.1 hx with hx | hx
  · exact hside (.inl hx)
  · rcases List.mem_cons.1 hx with rfl | hx
    · exact Chains.merge_block_mem hfree (hlisted info (by simp) hfree)
    · exact hside (.inr hx)

end Neighbours

end BoundaryTag
