import BoundaryTag.Pool.Basic
import BoundaryTag.Proofs.Memory.Rewrites
import BoundaryTag.Proofs.Pool.Tiling

namespace BoundaryTag

/-- A block that lies in an arena of `len` bytes, behind the first header. -/
structure BlockInfo.Fits (info : BlockInfo) (len : Nat) : Prop where
  aligned : info.block.offset % 16 = 0
  size_mod : info.size % 16 = 0
  size_ge : 16 ≤ info.size
  stop_le : info.stop ≤ len
  short : len < UInt64.size

/-- The header and the footer of a block hold its tag. -/
def Memory.Tagged (m : Memory) (info : BlockInfo) : Prop :=
  ∀ offset, info.HasTagAt offset → m.load offset = info.tag.raw

/-- Writes both tags of a block. -/
def Memory.putTags (m : Memory) (info : BlockInfo) : Memory :=
  (m.store (info.block.offset - 8) info.tag.raw).store (info.stop - 16) info.tag.raw

namespace BlockInfo

variable {info : BlockInfo} {len : Nat}

theorem LiesIn.fits {start stop : Nat} (h : info.LiesIn start stop) (hstop : stop ≤ len)
    (hshort : len < UInt64.size) : info.Fits len where
  aligned := h.aligned
  size_mod := h.size_mod
  size_ge := by
    have := h.size_ge
    omega
  stop_le := Nat.le_trans h.stop_le hstop
  short := hshort

theorem Fits.offset_ge (h : info.Fits len) : 16 ≤ info.block.offset := by
  have hpos := info.block.offset_pos
  have haligned := h.aligned
  omega

theorem Fits.size_lt (h : info.Fits len) : info.size < UInt64.size := by
  have hstop := h.stop_le
  have hshort := h.short
  rw [stop] at hstop
  omega

theorem Fits.size_tag (h : info.Fits len) : info.tag.size = info.size :=
  Tag.size_ofSize h.size_mod h.size_lt _

theorem Fits.allocated_tag (h : info.Fits len) : info.tag.allocated = info.allocated :=
  Tag.allocated_ofSize h.size_mod h.size_lt _

theorem Fits.free_tag (h : info.Fits len) : info.tag.free = !info.allocated := by
  rw [Tag.free, h.allocated_tag]

theorem Fits.offset_skip (h : info.Fits len) : (info.block.skip info.size).offset = info.stop := by
  have hstop := h.stop_le
  have hshort := h.short
  exact Block.offset_skip (by rw [stop] at hstop; omega)

/-- The tag of a free block is a multiple of 16. -/
theorem Fits.tag_mod (h : info.Fits len) (hfree : info.allocated = false) :
    info.tag.raw.toNat % 16 = 0 := by
  rw [tag, Tag.toNat_ofSize h.size_mod h.size_lt, hfree]
  exact h.size_mod

/-- Tags lie at aligned offsets in the arena. -/
theorem Fits.tag_place (h : info.Fits len) {offset : Nat} (htag : info.HasTagAt offset) :
    offset % 8 = 0 ∧ offset + 8 ≤ len := by
  have haligned := h.aligned
  have hmod := h.size_mod
  have hsize := h.size_ge
  have hstop := h.stop_le
  simp only [HasTagAt, stop] at *
  omega

theorem Fits.hasTagAt_header (h : info.Fits len) : info.HasTagAt (info.block.offset - 8) := by
  have hlow := h.offset_ge
  exact .inl (by omega)

theorem Fits.hasTagAt_footer (h : info.Fits len) : info.HasTagAt (info.stop - 16) := by
  have hlow := h.offset_ge
  exact .inr (by rw [stop]; omega)

theorem Fits.covers_tag (h : info.Fits len) {offset : Nat} (htag : info.HasTagAt offset) :
    info.Covers offset := by
  have hsize := h.size_ge
  have hoffset := h.offset_ge
  simp only [HasTagAt, Covers, stop] at *
  omega

theorem Fits.covers_block (h : info.Fits len) : info.Covers info.block.offset := by
  have hsize := h.size_ge
  simp only [Covers, stop]
  omega

end BlockInfo

namespace Memory

variable {m after : Memory} {info : BlockInfo} {len : Nat}

theorem Tagged.header (h : m.Tagged info) (hfits : info.Fits len) :
    m.load (info.block.offset - 8) = info.tag.raw :=
  h _ hfits.hasTagAt_header

theorem Tagged.footer (h : m.Tagged info) (hfits : info.Fits len) :
    m.load (info.stop - 16) = info.tag.raw :=
  h _ hfits.hasTagAt_footer

theorem rewrites_putTags (m : Memory) (h : info.Fits len) :
    m.Rewrites (m.putTags info) fun offset word => info.HasTagAt offset ∧ word = info.tag.raw := by
  have haligned := h.aligned
  have hmod := h.size_mod
  have hlow := h.offset_ge
  refine ((m.rewrites_store (by omega) _).mono ?_).trans
    ((rewrites_store _ (by simp only [BlockInfo.stop]; omega) _).mono ?_)
  · rintro offset word ⟨rfl, hword⟩
    exact ⟨.inl (by omega), hword⟩
  · rintro offset word ⟨rfl, hword⟩
    exact ⟨.inr (by simp only [BlockInfo.stop]; omega), hword⟩

theorem tagged_putTags (m : Memory) (h : info.Fits len) : (m.putTags info).Tagged info := by
  have haligned := h.aligned
  have hmod := h.size_mod
  have hlow := h.offset_ge
  intro offset htag
  have hplace := (h.tag_place htag).1
  rw [putTags, load_store _ (by simp only [BlockInfo.stop]; omega) hplace]
  split
  · rfl
  · have hheader : info.block.offset - 8 = offset := by
      rcases htag with htag | htag <;> omega
    rw [load_store _ (by omega) hplace, if_pos hheader]

theorem Tagged.of_rewrites (h : m.Tagged info) (hfits : info.Fits len)
    {allowed : Nat → UInt64 → Prop} (hchange : m.Rewrites after allowed)
    (hnot : ∀ offset, info.HasTagAt offset → ∀ word, ¬ allowed offset word) :
    after.Tagged info := by
  intro offset htag
  rw [hchange.load_eq (hfits.tag_place htag).1 (hnot offset htag)]
  exact h offset htag

end Memory

namespace Arena

variable {a : Arena} {info : BlockInfo}

theorem header_eq (h : info.Fits a.len) (htagged : a.memory.Tagged info) :
    a.header info.block = .ok info.tag := by
  have haligned := h.aligned
  have hstop := h.stop_le
  unfold BlockInfo.stop at hstop
  rw [header_eq_load (by omega) (by omega), htagged.header h]

theorem footer_eq (h : info.Fits a.len) (htagged : a.memory.Tagged info) :
    a.footer info.block = .ok info.tag := by
  have haligned := h.aligned
  have hmod := h.size_mod
  have hlow := h.offset_ge
  have hstop := h.stop_le
  have hshort := h.short
  have hload := htagged.footer h
  unfold BlockInfo.stop at hstop hload
  rw [footer, header_eq h htagged, ok_bind, h.size_tag,
    Block.footerOffset_eq_ok _ (by omega) (by omega), ok_bind, tagAt_eq (by omega) (by omega),
    hload]

theorem successor_eq (h : info.Fits a.len) (htagged : a.memory.Tagged info) :
    a.successor info.block = .ok (info.block.skip info.size) := by
  rw [successor, header_eq h htagged, ok_bind, h.size_tag, pure_eq_ok]

/-- Right behind a block one finds its tag, -/
theorem precedingTag_eq {block : Block} (h : info.Fits a.len) (htagged : a.memory.Tagged info)
    (hseam : info.stop = block.offset) : a.precedingTag block = .ok info.tag := by
  have haligned := h.aligned
  have hmod := h.size_mod
  have hlow := h.offset_ge
  have hstop := h.stop_le
  have hload := htagged.footer h
  rw [hseam] at hstop hload
  unfold BlockInfo.stop at hseam
  rw [precedingTag, Block.precedingFooterOffset, tagBytes, Build.sub_eq_ok _ (by omega), ok_bind,
    tagAt_eq (by omega) (by omega), hload]

/-- and so the block itself. -/
theorem predecessor?_eq {block : Block} (h : info.Fits a.len) (htagged : a.memory.Tagged info)
    (hseam : info.stop = block.offset) : a.predecessor? block = .ok (some info.block) := by
  rw [predecessor?, precedingTag_eq h htagged hseam, ok_bind, h.size_tag, Block.skipBack?, ← hseam,
    BlockInfo.stop, Nat.add_sub_cancel, Block.ofOffset?_offset, pure_eq_ok]

/-- A place where blocks may start is found at its address. -/
theorem blockAt?_address {block : Block} (haligned : block.offset % 16 = 0)
    (hinside : block.offset < a.len) : a.blockAt? (a.address block) = some block := by
  rw [blockAt?, address, Nat.add_sub_cancel_left, Block.ofOffset?_offset]
  exact if_pos ⟨Nat.le_add_right _ _, hinside, haligned⟩

/-- Tags are written without a fault. -/
theorem putTags_eq (a : Arena) (h : info.Fits a.len) :
    a.putTags info.block info.tag = .ok { a with memory := a.memory.putTags info } := by
  have haligned := h.aligned
  have hmod := h.size_mod
  have hsize := h.size_ge
  have hlow := h.offset_ge
  have hstop := h.stop_le
  have hshort := h.short
  unfold BlockInfo.stop at hstop
  rw [putTags, Block.headerOffset_eq_ok _ (by omega), ok_bind, putTag,
    a.store_eq_ok (by omega) (by omega), ok_bind, h.size_tag,
    Block.footerOffset_eq_ok _ (by omega) (by omega), ok_bind, putTag]
  exact store_eq_ok _ (by omega) (by simp only; omega) _

end Arena

end BoundaryTag
