import BoundaryTag.Proofs.Pool.Tags

namespace BoundaryTag

/-- No word, tags included, belongs to both blocks. -/
def BlockInfo.Apart (info other : BlockInfo) : Prop :=
  info.stop ≤ other.block.offset ∨ other.stop ≤ info.block.offset

theorem BlockInfo.Apart.not_hasTagAt {info other : BlockInfo} {len offset : Nat}
    (hapart : info.Apart other) (h : info.Fits len) (hother : other.Fits len)
    (htag : other.HasTagAt offset) : ¬ info.HasTagAt offset := by
  have hlow := h.offset_ge
  have hsize := h.size_ge
  have hlow' := hother.offset_ge
  have hsize' := hother.size_ge
  simp only [Apart, HasTagAt, stop] at *
  omega

namespace Arena

/-- The tags of a block read the same: its header, the word before its end, and its footer if its
    header says the block's size. -/
structure KeepsTags (a after : Arena) (info : BlockInfo) : Prop where
  header_eq : after.header info.block = a.header info.block
  last_eq : after.tagAt (info.stop - 16) = a.tagAt (info.stop - 16)
  footer_eq : ∀ tag, a.header info.block = .ok tag → tag.size = info.size →
    after.footer info.block = a.footer info.block

/-- The arena `after` is `a` with the tags of `info` in it, and nothing else is new. -/
structure Retags (a after : Arena) (info : BlockInfo) : Prop where
  place_eq : after = { a with memory := after.memory }
  header_eq : after.header info.block = .ok info.tag
  footer_eq : after.footer info.block = .ok info.tag
  size_eq : info.tag.size = info.size
  allocated_eq : info.tag.allocated = info.allocated
  successor_eq : ∃ next : Block, next.offset = info.block.offset + info.size ∧
    after.successor info.block = .ok next ∧ after.precedingTag next = .ok info.tag ∧
    after.predecessor? next = .ok (some info.block)
  load_eq : ∀ offset, offset % 8 = 0 → offset ≠ info.block.offset - 8 →
    offset ≠ info.block.offset + info.size - 16 → after.load offset = a.load offset
  apart : ∀ other : BlockInfo, other.Fits a.len → info.Apart other → a.KeepsTags after other

variable {a : Arena} {memory : Memory} {info : BlockInfo}

theorem load_congr {offset : Nat} (hload : memory.load offset = a.memory.load offset) :
    { a with memory }.load offset = a.load offset := by
  rw [load, load, hload]
  rfl

theorem tagAt_congr {offset : Nat} (hload : memory.load offset = a.memory.load offset) :
    { a with memory }.tagAt offset = a.tagAt offset := by
  rw [tagAt, tagAt, load_congr hload]

theorem keepsTags_of_load (h : info.Fits a.len)
    (hload : ∀ offset, info.HasTagAt offset → memory.load offset = a.memory.load offset) :
    a.KeepsTags { a with memory } info := by
  have hlow := h.offset_ge
  have hstop := h.stop_le
  have hshort := h.short
  have hheader : { a with memory }.header info.block = a.header info.block := by
    rw [header, header, Block.headerOffset_eq_ok _ (by omega), ok_bind, ok_bind,
      tagAt_congr (hload _ h.hasTagAt_header)]
  have hlast : { a with memory }.tagAt (info.stop - 16) = a.tagAt (info.stop - 16) :=
    tagAt_congr (hload _ h.hasTagAt_footer)
  refine ⟨hheader, hlast, fun tag htag hsize => ?_⟩
  unfold BlockInfo.stop at hstop hlast
  rw [footer, footer, hheader, htag, ok_bind, ok_bind, hsize,
    Block.footerOffset_eq_ok _ (by omega) (by omega), ok_bind, ok_bind, hlast]

/-- Tags can be written wherever a block fits, whatever is there. -/
theorem retags_of_fits (h : info.Fits a.len) :
    ∃ after, a.putTags info.block info.tag = .ok after ∧ a.Retags after info := by
  have htagged : (a.memory.putTags info).Tagged info := a.memory.tagged_putTags h
  have hkept : ∀ offset, offset % 8 = 0 → ¬ info.HasTagAt offset →
      (a.memory.putTags info).load offset = a.memory.load offset := fun offset hoffset hnot =>
    (a.memory.rewrites_putTags h).load_eq hoffset fun _ hallowed => hnot hallowed.1
  have hnext : info.stop = (info.block.skip info.size).offset := h.offset_skip.symm
  refine ⟨_, a.putTags_eq h, ?_⟩
  exact {
    place_eq := rfl
    header_eq := Arena.header_eq h htagged
    footer_eq := Arena.footer_eq h htagged
    size_eq := h.size_tag
    allocated_eq := h.allocated_tag
    successor_eq := ⟨_, h.offset_skip, Arena.successor_eq h htagged,
      Arena.precedingTag_eq h htagged hnext, Arena.predecessor?_eq h htagged hnext⟩
    load_eq := fun offset hoffset hheader hfooter => by
      refine load_congr (hkept offset hoffset fun htag => ?_)
      have hlow := h.offset_ge
      simp only [BlockInfo.HasTagAt, BlockInfo.stop] at htag
      omega
    apart := fun other hother hapart => keepsTags_of_load hother fun offset htag =>
      hkept offset (hother.tag_place htag).1 (hapart.not_hasTagAt h hother htag) }

/-- Two blocks side by side, the second of which ends where its arena ends. -/
def firstInfo : BlockInfo := ⟨⟨32, by decide, by decide⟩, 16, true⟩

def lastInfo : BlockInfo := ⟨⟨48, by decide, by decide⟩, 80, false⟩

/-- An arena with stray words where the tags of the second block belong. -/
def strayTags : Arena where
  build := .checked
  base := 65536
  len := 128
  memory := (Memory.store {} 40 0xFFFFFFFFFFFFFFFF).store 112 0xFFFFFFFFFFFFFFFF

theorem retags_strayTags : lastInfo.Fits strayTags.len ∧ firstInfo.Fits strayTags.len ∧
    lastInfo.Apart firstInfo ∧ ∃ after,
      strayTags.putTags lastInfo.block lastInfo.tag = .ok after ∧
        strayTags.Retags after lastInfo ∧ strayTags.KeepsTags after firstInfo := by
  have hfits : lastInfo.Fits strayTags.len :=
    ⟨by decide, by decide, by decide, Nat.le_refl 128, by decide +kernel⟩
  have hfirst : firstInfo.Fits strayTags.len :=
    ⟨by decide, by decide, Nat.le_refl 16, by decide +kernel, by decide +kernel⟩
  have hapart : lastInfo.Apart firstInfo := .inr (Nat.le_refl 48)
  obtain ⟨after, hput, hretags⟩ := retags_of_fits hfits
  exact ⟨hfits, hfirst, hapart, after, hput, hretags, hretags.apart _ hfirst hapart⟩

end Arena

end BoundaryTag
