import BoundaryTag.Proofs.Pool.Honest

namespace BoundaryTag

namespace BlockInfo

/-- The first `size` bytes of a block, as a block. -/
def firstPart (info : BlockInfo) (size : Nat) (allocated : Bool) : BlockInfo :=
  ⟨info.block, size, allocated⟩

/-- What is left of a block behind its first `size` bytes. -/
def lastPart (info : BlockInfo) (size : Nat) (allocated : Bool) : BlockInfo :=
  ⟨info.block.skip size, info.size - size, allocated⟩

/-- Both parts of a cut are large enough for a block. -/
structure Cuts (info : BlockInfo) (size : Nat) : Prop where
  size_mod : size % 16 = 0
  size_ge : 32 ≤ size
  rest_ge : size + 32 ≤ info.size

variable {info : BlockInfo} {size len : Nat}

theorem Cuts.offset_lastPart (h : info.Cuts size) (hfits : info.Fits len) (allocated : Bool) :
    (info.lastPart size allocated).block.offset = info.block.offset + size := by
  have hstop := hfits.stop_le
  have hshort := hfits.short
  have hrest := h.rest_ge
  rw [stop] at hstop
  exact Block.offset_skip (by omega)

theorem Cuts.stop_lastPart (h : info.Cuts size) (hfits : info.Fits len) (allocated : Bool) :
    (info.lastPart size allocated).stop = info.stop := by
  have hrest := h.rest_ge
  rw [stop, h.offset_lastPart hfits, stop]
  simp only [lastPart]
  omega

theorem Cuts.fits_firstPart (h : info.Cuts size) (hfits : info.Fits len) (allocated : Bool) :
    (info.firstPart size allocated).Fits len where
  aligned := hfits.aligned
  size_mod := h.size_mod
  size_ge := Nat.le_trans (by decide) h.size_ge
  stop_le := by
    have hstop := hfits.stop_le
    have hrest := h.rest_ge
    simp only [stop, firstPart] at hstop ⊢
    omega
  short := hfits.short

theorem Cuts.fits_lastPart (h : info.Cuts size) (hfits : info.Fits len) (allocated : Bool) :
    (info.lastPart size allocated).Fits len where
  aligned := by
    have haligned := hfits.aligned
    have hmod := h.size_mod
    rw [h.offset_lastPart hfits]
    omega
  size_mod := by
    have hwhole := hfits.size_mod
    have hmod := h.size_mod
    simp only [lastPart]
    omega
  size_ge := by
    have hrest := h.rest_ge
    simp only [lastPart]
    omega
  stop_le := h.stop_lastPart hfits allocated ▸ hfits.stop_le
  short := hfits.short

theorem Cuts.tiles (h : info.Cuts size) (hfits : info.Fits len) (first last : Bool)
    {left right : Nat} (htiles : Tiles left [info] right) :
    Tiles left [info.firstPart size first, info.lastPart size last] right := by
  obtain ⟨hleft, hmod, -, hright⟩ := htiles
  have hsize := h.size_mod
  have hrest := h.rest_ge
  refine ⟨hleft, hsize, h.size_ge, h.offset_lastPart hfits last, ?_, ?_, ?_⟩
  · simp only [lastPart, alignment] at hmod ⊢
    omega
  · simp only [lastPart, smallestBlock]
    omega
  · exact (h.stop_lastPart hfits last).trans hright

theorem Cuts.covers_firstPart (h : info.Cuts size) {allocated : Bool} {offset : Nat}
    (hcovers : (info.firstPart size allocated).Covers offset) : info.Covers offset := by
  have hrest := h.rest_ge
  simp only [Covers, stop, firstPart] at hcovers ⊢
  omega

theorem Cuts.covers_lastPart (h : info.Cuts size) (hfits : info.Fits len) {allocated : Bool}
    {offset : Nat} (hcovers : (info.lastPart size allocated).Covers offset) :
    info.Covers offset := by
  rw [Covers, h.stop_lastPart hfits, h.offset_lastPart hfits] at hcovers
  rw [Covers]
  omega

/-- The tags of the first part lie before those of the last. -/
theorem Cuts.not_tag_lastPart (h : info.Cuts size) (hfits : info.Fits len) {first last : Bool}
    {offset : Nat} (htag : (info.firstPart size first).HasTagAt offset) :
    ¬ (info.lastPart size last).HasTagAt offset := by
  have hrest := h.rest_ge
  have hsize := h.size_ge
  have hlow := hfits.offset_ge
  rw [HasTagAt, h.stop_lastPart hfits, h.offset_lastPart hfits]
  simp only [HasTagAt, stop, firstPart] at htag ⊢
  omega

theorem Cuts.loose_of_parts (h : info.Cuts size) (hfits : info.Fits len) {first last : Bool}
    {front rest : List BlockInfo} {offset : Nat}
    (hloose : Loose (front ++ info.firstPart size first :: info.lastPart size last :: rest)
      offset) :
    Loose (front ++ info :: rest) offset ∨ info.Covers offset := by
  have hparts : ∀ x ∈ [info.firstPart size first, info.lastPart size last],
      x.Covers offset → info.Covers offset := by
    intro x hx hcovers
    simp only [List.mem_cons, List.not_mem_nil, or_false] at hx
    rcases hx with rfl | rfl
    · exact h.covers_firstPart hcovers
    · exact h.covers_lastPart hfits hcovers
  exact Loose.of_exchange hloose hparts

end BlockInfo

/-- Writes the tags of both parts of a cut. -/
def Memory.putParts (m : Memory) (info : BlockInfo) (size : Nat) (first last : Bool) : Memory :=
  (m.putTags (info.firstPart size first)).putTags (info.lastPart size last)

namespace Pool

variable {pool : Pool} {front rest blocks : List BlockInfo} {chains : Chains}
  {info : BlockInfo} {size : Nat}

theorem putTags_firstPart (hcuts : info.Cuts size) (hfits : info.Fits pool.arena.len)
    (first : Bool) :
    pool.putTags info.block (.ofSize size first) =
      .ok (pool.rewrite pool.index (pool.arena.memory.putTags (info.firstPart size first))) := by
  have hput := pool.putTags_eq (hcuts.fits_firstPart hfits first)
  exact hput

theorem putTags_lastPart (hcuts : info.Cuts size) (hfits : info.Fits pool.arena.len)
    (first last : Bool) :
    (pool.rewrite pool.index (pool.arena.memory.putTags (info.firstPart size first))).putTags
        (info.block.skip size) (.ofSize (info.size - size) last) =
      .ok (pool.rewrite pool.index (pool.arena.memory.putParts info size first last)) := by
  have hput := (pool.rewrite pool.index
    (pool.arena.memory.putTags (info.firstPart size first))).putTags_eq
      (hcuts.fits_lastPart hfits last)
  exact hput

namespace Represents

/-- The flag of an unlisted block is changed in both tags. -/
theorem mark (h : pool.Represents (front ++ info :: rest) chains)
    (hunlisted : ∀ sizeClass, info.block ∉ chains sizeClass) (allocated : Bool) :
    ∃ memory, pool.putTags info.block (.ofSize info.size allocated) =
        .ok (pool.rewrite pool.index memory) ∧
      Represents (pool.rewrite pool.index memory)
        (front ++ { info with allocated } :: rest) chains ∧
      pool.KeepsHonest (pool.rewrite pool.index memory) [] ∧
      pool.arena.memory.Rewrites memory fun offset word =>
        info.HasTagAt offset ∧ word = (Tag.ofSize info.size allocated).raw := by
  have hfits : BlockInfo.Fits { info with allocated } pool.arena.len :=
    ⟨h.laid.fits_middle.aligned, h.laid.fits_middle.size_mod, h.laid.fits_middle.size_ge,
      h.laid.fits_middle.stop_le, h.laid.fits_middle.short⟩
  have hchange := pool.arena.memory.rewrites_putTags hfits
  have hold : pool.Represents (front ++ ([info] ++ rest)) chains := h
  have hput := pool.putTags_eq hfits
  have hafter : Represents
      (pool.rewrite pool.index (pool.arena.memory.putTags { info with allocated }))
      (front ++ ([{ info with allocated }] ++ rest)) chains := by
    apply hold.replace _ [{ info with allocated }]
    · simpa using hunlisted
    · exact hchange.mono fun offset word htag => ⟨info, by simp, hfits.covers_tag htag.1⟩
    · exact fun left right htiles => htiles
    · simpa using Memory.tagged_putTags _ hfits
  refine ⟨_, hput, hafter, ?_, hchange⟩
  apply keepsHonest_of_retag hold.laid hafter.laid
  · simp
  · exact hchange.mono fun offset word htag => ⟨_, List.mem_singleton.2 rfl, htag.1⟩

/-- The header of a block, as the steps of an operation read it. -/
theorem header_eq (h : pool.Represents blocks chains) (hinfo : info ∈ blocks) :
    ∃ tag, pool.arena.header info.block = .ok tag ∧ tag.size = info.size ∧
      tag.allocated = info.allocated :=
  ⟨info.tag, h.laid.header_eq hinfo, (h.laid.fits hinfo).size_tag,
    (h.laid.fits hinfo).allocated_tag⟩

/-- Writing both pairs of tags, in this order, replaces an unlisted block by its parts. -/
theorem cut (h : pool.Represents (front ++ info :: rest) chains)
    (hunlisted : ∀ sizeClass, info.block ∉ chains sizeClass) (hcuts : info.Cuts size)
    (first last : Bool) :
    Represents (pool.rewrite pool.index (pool.arena.memory.putParts info size first last))
      (front ++ info.firstPart size first :: info.lastPart size last :: rest) chains ∧
    pool.KeepsHonest
      (pool.rewrite pool.index (pool.arena.memory.putParts info size first last)) [] ∧
    pool.arena.memory.Rewrites (pool.arena.memory.putParts info size first last)
      fun offset _ => info.Covers offset := by
  have hfits := h.laid.fits_middle
  have hfirst := hcuts.fits_firstPart hfits first
  have hlast := hcuts.fits_lastPart hfits last
  have htags : pool.arena.memory.Rewrites (pool.arena.memory.putParts info size first last)
      fun offset _ => ∃ part ∈ [info.firstPart size first, info.lastPart size last],
        part.HasTagAt offset := by
    refine ((Memory.rewrites_putTags _ hfirst).mono ?_).trans
      ((Memory.rewrites_putTags _ hlast).mono ?_)
    · exact fun offset word htag => ⟨_, List.mem_cons_self, htag.1⟩
    · exact fun offset word htag => ⟨_, List.mem_cons_of_mem _ (List.mem_singleton.2 rfl), htag.1⟩
  have hchange : pool.arena.memory.Rewrites
      (pool.arena.memory.putParts info size first last) fun offset _ => info.Covers offset := by
    refine htags.mono fun offset word htag => ?_
    obtain ⟨part, hpart, htag⟩ := htag
    simp only [List.mem_cons, List.not_mem_nil, or_false] at hpart
    rcases hpart with rfl | rfl
    · exact hcuts.covers_firstPart (hfirst.covers_tag htag)
    · exact hcuts.covers_lastPart hfits (hlast.covers_tag htag)
  have hold : pool.Represents (front ++ ([info] ++ rest)) chains := h
  have hafter : Represents
      (pool.rewrite pool.index (pool.arena.memory.putParts info size first last))
      (front ++ ([info.firstPart size first, info.lastPart size last] ++ rest)) chains := by
    apply hold.replace _ [info.firstPart size first, info.lastPart size last]
    · simpa using hunlisted
    · exact hchange.mono fun offset word hcovers => ⟨info, by simp, hcovers⟩
    · exact fun left right => hcuts.tiles hfits first last
    · intro part hpart
      simp only [List.mem_cons, List.not_mem_nil, or_false] at hpart
      rcases hpart with rfl | rfl
      · refine (Memory.tagged_putTags _ hfirst).of_rewrites hfirst
          (Memory.rewrites_putTags _ hlast) ?_
        exact fun offset htag word hother => hcuts.not_tag_lastPart hfits htag hother.1
      · exact Memory.tagged_putTags _ hlast
  refine ⟨hafter, ?_, hchange⟩
  apply keepsHonest_of_retag hold.laid hafter.laid _ htags
  simp [BlockInfo.firstPart]

/-- No list names the last part of an unlisted block. -/
theorem fresh_lastPart (h : pool.Represents (front ++ info :: rest) chains)
    (hunlisted : ∀ sizeClass, info.block ∉ chains sizeClass) (hcuts : info.Cuts size)
    (last : Bool) (sizeClass : SizeClass) : (info.lastPart size last).block ∉ chains sizeClass := by
  intro hblock
  have hfits := h.laid.fits_middle
  have hlast := (hcuts.fits_lastPart hfits last).covers_block
  obtain ⟨other, hother, heq, -⟩ := h.listed hblock
  have hcovered := (h.laid.fits hother).covers_block
  rw [heq] at hcovered
  obtain rfl := h.laid.tiles.eq_of_covers hother (by simp) hcovered
    (hcuts.covers_lastPart hfits hlast)
  exact hunlisted sizeClass (heq ▸ hblock)

end Represents

end Pool

end BoundaryTag
