import BoundaryTag.Proofs.FreeList.Index
import BoundaryTag.Proofs.Pool.Layout

namespace BoundaryTag

/-- The arena is laid out as `blocks`, and the index holds `chains`, which list free blocks in the
    classes of their sizes. -/
structure Pool.Represents (pool : Pool) (blocks : List BlockInfo) (chains : Chains) : Prop where
  laid : pool.arena.Laid blocks
  threads : pool.index.Threads pool.arena chains
  listed : ∀ {block sizeClass}, block ∈ chains sizeClass → ∃ info ∈ blocks,
    info.block = block ∧ info.allocated = false ∧ SizeClass.ofSize info.size = sizeClass

/-- The pool over the same span, with other words and another index. -/
def Pool.rewrite (pool : Pool) (index : FreeIndex) (memory : Memory) : Pool where
  arena :=
    { build := pool.arena.build, base := pool.arena.base, len := pool.arena.len, memory }
  index := index

/-- The words that free blocks occupy. -/
def Loose (blocks : List BlockInfo) (offset : Nat) : Prop :=
  ∃ info ∈ blocks, info.allocated = false ∧ info.Covers offset

theorem Loose.of_exchange {front new rest : List BlockInfo} {info : BlockInfo} {offset : Nat}
    (h : Loose (front ++ (new ++ rest)) offset)
    (hnew : ∀ x ∈ new, x.Covers offset → info.Covers offset) :
    Loose (front ++ info :: rest) offset ∨ info.Covers offset := by
  obtain ⟨x, hx, hfree, hcovers⟩ := h
  simp only [List.mem_append] at hx
  rcases hx with hx | hx | hx
  · exact .inl ⟨x, by simp [hx], hfree, hcovers⟩
  · exact .inr (hnew x hx hcovers)
  · exact .inl ⟨x, by simp [hx], hfree, hcovers⟩

theorem BlockInfo.HoldsAt.covers {info : BlockInfo} {offset : Nat} (h : info.HoldsAt offset) :
    info.Covers offset := by
  simp only [HoldsAt, Covers] at *
  omega

theorem BlockInfo.LiesIn.holds_link {info : BlockInfo} {start stop offset : Nat}
    (h : info.LiesIn start stop) (hlink : info.block.HasLinkAt offset) : info.HoldsAt offset := by
  have hsize := h.size_ge
  simp only [HoldsAt, BlockInfo.stop]
  rcases hlink with hlink | hlink <;> omega

/-- Bytes that a caller may use lie in words that a caller may use. -/
theorem BlockInfo.LiesIn.holds_span {info : BlockInfo} {start stop target count offset : Nat}
    (h : info.LiesIn start stop) (hlow : info.block.offset ≤ target)
    (hhigh : target + count + 16 ≤ info.stop)
    (hspan : offset % 8 = 0 ∧ target < offset + 8 ∧ offset < target + count) :
    info.HoldsAt offset := by
  have haligned := h.aligned
  simp only [HoldsAt]
  omega

namespace Pool

variable {pool : Pool} {front old new rest blocks : List BlockInfo} {chains : Chains}
  {info : BlockInfo}

@[simp] theorem build_rewrite (pool : Pool) (index : FreeIndex) (memory : Memory) :
    (pool.rewrite index memory).arena.build = pool.arena.build := rfl

@[simp] theorem base_rewrite (pool : Pool) (index : FreeIndex) (memory : Memory) :
    (pool.rewrite index memory).arena.base = pool.arena.base := rfl

@[simp] theorem len_rewrite (pool : Pool) (index : FreeIndex) (memory : Memory) :
    (pool.rewrite index memory).arena.len = pool.arena.len := rfl

@[simp] theorem memory_rewrite (pool : Pool) (index : FreeIndex) (memory : Memory) :
    (pool.rewrite index memory).arena.memory = memory := rfl

@[simp] theorem index_rewrite (pool : Pool) (index : FreeIndex) (memory : Memory) :
    (pool.rewrite index memory).index = index := rfl

@[simp] theorem rewrite_rewrite (pool : Pool) (index after : FreeIndex) (middle memory : Memory) :
    (pool.rewrite index middle).rewrite after memory = pool.rewrite after memory := rfl

theorem putTags_eq (pool : Pool) (h : info.Fits pool.arena.len) :
    pool.putTags info.block info.tag =
      .ok (pool.rewrite pool.index (pool.arena.memory.putTags info)) := by
  rw [putTags, pool.arena.putTags_eq h]
  rfl

namespace Represents

/-- Links lie in the payloads of free blocks. -/
theorem holds_link (h : pool.Represents blocks chains) {offset : Nat}
    (hlink : chains.HasLinkAt offset) :
    ∃ info ∈ blocks, info.allocated = false ∧ info.HoldsAt offset := by
  obtain ⟨sizeClass, block, hblock, hoffset⟩ := hlink
  obtain ⟨info, hinfo, rfl, hfree, -⟩ := h.listed hblock
  exact ⟨info, hinfo, hfree, (h.laid.liesIn hinfo).holds_link hoffset⟩

theorem loose_of_link (h : pool.Represents blocks chains) {offset : Nat}
    (hlink : chains.HasLinkAt offset) : Loose blocks offset := by
  obtain ⟨info, hinfo, hfree, hholds⟩ := h.holds_link hlink
  exact ⟨info, hinfo, hfree, hholds.covers⟩

theorem not_listed (h : pool.Represents blocks chains) (hinfo : info ∈ blocks)
    (hallocated : info.allocated = true) (sizeClass : SizeClass) :
    info.block ∉ chains sizeClass := by
  intro hmem
  obtain ⟨other, hother, heq, hfree, -⟩ := h.listed hmem
  rw [h.laid.tiles.eq_of_block_eq rfl hother hinfo heq, hallocated] at hfree
  cases hfree

theorem aligned (h : pool.Represents blocks chains) :
    ∀ block ∈ chains.members, block.offset % 16 = 0 := by
  intro block hblock
  obtain ⟨sizeClass, hblock⟩ := Chains.mem_members.1 hblock
  obtain ⟨info, hinfo, rfl, -⟩ := h.listed hblock
  exact (h.laid.liesIn hinfo).aligned

/-- Listing a free block pushes it on the list of its class and writes nothing but links. -/
theorem enlist (h : pool.Represents blocks chains) (hinfo : info ∈ blocks)
    (hfree : info.allocated = false) (hfresh : ∀ sizeClass, info.block ∉ chains sizeClass) :
    ∃ index memory, pool.enlist info.block = .ok (pool.rewrite index memory) ∧
      Represents (pool.rewrite index memory) blocks
        (chains.push (SizeClass.ofSize info.size) info.block) ∧
      pool.arena.memory.Rewrites memory fun offset word =>
        (chains.push (SizeClass.ofSize info.size) info.block).HasLinkAt offset ∧
          word.toNat % 16 = 0 := by
  have hlies := h.laid.liesIn hinfo
  have hfits := h.laid.fits hinfo
  have hsize := hlies.size_ge
  have hstop := hlies.stop_le
  have haligned : ∀ b, b = info.block ∨ b ∈ chains.members → b.offset % 16 = 0 := by
    rintro b (rfl | hb)
    · exact hfits.aligned
    · exact h.aligned b hb
  obtain ⟨index, memory, hinsert, hthreads, hchange⟩ := h.threads.insert (h.laid.header_eq hinfo)
    (.of_mod haligned) (by rw [BlockInfo.stop] at hstop; omega) hfresh (by rw [hfits.size_tag])
  have hlisted : ∀ {block sizeClass},
      block ∈ chains.push (SizeClass.ofSize info.size) info.block sizeClass →
        ∃ info ∈ blocks, info.block = block ∧ info.allocated = false ∧
          SizeClass.ofSize info.size = sizeClass := by
    intro block sizeClass hblock
    rcases Chains.mem_push.1 hblock with ⟨rfl, rfl⟩ | hblock
    · exact ⟨info, hinfo, rfl, hfree, rfl⟩
    · exact h.listed hblock
  refine ⟨index, memory, ?_, ⟨h.laid.of_payloads (hchange.mono ?_), hthreads, hlisted⟩,
    hchange.mono ?_⟩
  · rw [Pool.enlist, hinsert]
    rfl
  · rintro offset word ⟨⟨sizeClass, block, hblock, hlink⟩, -⟩
    obtain ⟨other, hother, rfl, -⟩ := hlisted hblock
    exact ⟨other, hother, (h.laid.liesIn hother).holds_link hlink⟩
  · exact fun _ _ hword =>
      ⟨hword.1, hword.2.mod fun b hb => haligned b (Chains.mem_members_push.1 hb)⟩

/-- Taking a listed block off its list writes nothing but links. -/
theorem unlist (h : pool.Represents blocks chains) (hinfo : info ∈ blocks)
    (hmem : info.block ∈ chains (SizeClass.ofSize info.size)) :
    ∃ index memory, pool.unlist info.block = .ok (pool.rewrite index memory) ∧
      Represents (pool.rewrite index memory) blocks (chains.without [info.block]) ∧
      pool.arena.memory.Rewrites memory fun offset word =>
        chains.HasLinkAt offset ∧ word.toNat % 16 = 0 := by
  obtain ⟨index, memory, herase, hthreads, hchange⟩ := h.threads.erase (h.laid.header_eq hinfo)
    (by rw [(h.laid.fits hinfo).size_tag]) hmem
  refine ⟨index, memory, ?_, ⟨h.laid.of_payloads (hchange.mono ?_), hthreads, ?_⟩,
    hchange.mono fun _ _ hword => ⟨hword.1, hword.2.mod h.aligned⟩⟩
  · rw [Pool.unlist, herase]
    rfl
  · rintro offset word ⟨hlink, -⟩
    obtain ⟨other, hother, -, hholds⟩ := h.holds_link hlink
    exact ⟨other, hother, hholds⟩
  · exact fun hblock => h.listed (Chains.mem_without.1 hblock).1

/-- Blocks that are not listed may be exchanged for others that fill the same span. -/
theorem replace (h : pool.Represents (front ++ (old ++ rest)) chains) (memory : Memory)
    (new : List BlockInfo)
    (hunlisted : ∀ info ∈ old, ∀ sizeClass, info.block ∉ chains sizeClass)
    (hchange : pool.arena.memory.Rewrites memory
      fun offset _ => ∃ info ∈ old, info.Covers offset)
    (hnew : ∀ left right, Tiles left old right → Tiles left new right)
    (htagged : ∀ info ∈ new, memory.Tagged info) :
    Represents (pool.rewrite pool.index memory) (front ++ (new ++ rest)) chains := by
  have hkept : ∀ {info sizeClass}, info ∈ front ++ (old ++ rest) →
      info.block ∈ chains sizeClass → info ∉ old := fun _ hblock hold =>
    hunlisted _ hold _ hblock
  refine ⟨h.laid.replace hchange hnew htagged, ?_, ?_⟩
  · apply h.threads.congr (Nat.le_refl _) h.laid.short
    rintro offset haligned ⟨sizeClass, block, hblock, hlink⟩
    obtain ⟨info, hinfo, rfl, -⟩ := h.listed hblock
    apply hchange.load_eq haligned
    rintro word ⟨other, hother, hcovers⟩
    have hholds := (h.laid.liesIn hinfo).holds_link hlink
    obtain rfl := h.laid.tiles.eq_of_covers hinfo (by simp [hother]) hholds.covers hcovers
    exact hkept hinfo hblock hother
  · intro block sizeClass hblock
    obtain ⟨info, hinfo, rfl, hfree, hclass⟩ := h.listed hblock
    have hout := hkept hinfo hblock
    refine ⟨info, ?_, rfl, hfree, hclass⟩
    simp only [List.mem_append] at hinfo ⊢
    tauto

/-- Blocks and lists decide the index, the tags and the links. -/
theorem restored (h : pool.Represents blocks chains) {index : FreeIndex} {memory : Memory}
    (hafter : (pool.rewrite index memory).Represents blocks chains) {other : Nat → Prop}
    (hchange : pool.arena.memory.Rewrites memory fun offset _ =>
      (chains.HasLinkAt offset ∨ ∃ x ∈ blocks, x.HasTagAt offset) ∨ other offset) :
    index = pool.index ∧ pool.arena.memory.Rewrites memory fun offset _ => other offset := by
  refine ⟨h.threads.index_eq hafter.threads, fun offset haligned => ?_⟩
  rcases hchange offset haligned with hkept | (⟨sizeClass, block, hblock, hlink⟩ | ⟨x, hx, htag⟩) |
    hother
  · exact .inl hkept
  · exact .inl ((h.threads.linked sizeClass).load_eq (hafter.threads.linked sizeClass) hblock hlink)
  · exact .inl ((hafter.laid.tagged x hx offset htag).trans (h.laid.tagged x hx offset htag).symm)
  · exact .inr hother

/-- What a caller writes into an allocated block does not disturb the pool. -/
theorem of_payload (h : pool.Represents blocks chains) {memory : Memory} (hinfo : info ∈ blocks)
    (hallocated : info.allocated = true)
    (hchange : pool.arena.memory.Rewrites memory fun offset _ => info.HoldsAt offset) :
    Represents (pool.rewrite pool.index memory) blocks chains := by
  refine ⟨h.laid.of_payloads (hchange.mono fun _ _ hholds => ⟨info, hinfo, hholds⟩), ?_, h.listed⟩
  apply h.threads.congr (Nat.le_refl _) h.laid.short
  intro offset haligned hlink
  refine hchange.load_eq haligned fun word hholds => ?_
  obtain ⟨other, hother, hfree, hlinked⟩ := h.holds_link hlink
  obtain rfl := h.laid.tiles.eq_of_covers hinfo hother hholds.covers hlinked.covers
  rw [hallocated] at hfree
  cases hfree

end Represents

end Pool

end BoundaryTag
