import BoundaryTag.Proofs.Pool.Tags

namespace BoundaryTag

/-- The prologue with what its tags say. -/
def prologueInfo : BlockInfo := ⟨prologue, tagBytes, true⟩

theorem offset_lt_of_prologue_tag {offset : Nat} (htag : prologueInfo.HasTagAt offset) :
    offset < 24 := by
  change offset + 8 = 16 ∨ offset + 16 = 32 at htag
  omega

/-- The blocks fill the arena behind the prologue, and every tag is in its place. -/
structure Arena.Laid (a : Arena) (infos : List BlockInfo) : Prop where
  tiles : Tiles frontBytes infos a.len
  short : a.len < UInt64.size
  tagged : ∀ info ∈ infos, a.memory.Tagged info
  front : a.memory.Tagged prologueInfo
  last : a.memory.load (a.len - 8) = Tag.epilogue.raw

variable {front old new rest infos : List BlockInfo} {info : BlockInfo} {stop : Nat}

/-- The block before a tile, or the prologue, ends where the tile starts. -/
theorem Tiles.stop_preceding (h : Tiles frontBytes (front ++ info :: rest) stop) :
    (front.getLast?.getD prologueInfo).stop = info.block.offset := by
  have hfront := (tiles_middle.1 h).1
  rcases List.eq_nil_or_concat front with rfl | ⟨init, last, rfl⟩
  · exact hfront
  · rw [List.concat_eq_append] at hfront ⊢
    simpa [Tiles] using (tiles_middle.1 hfront).2.2.2

/-- The block behind a tile, or the end of the tiling, starts where the tile ends. -/
theorem Tiles.stop_eq_next {start : Nat} (h : Tiles start (front ++ info :: rest) stop) :
    info.stop = (rest.head?.map (·.block.offset)).getD stop := by
  have hrest := (tiles_middle.1 h).2.2.2
  cases rest with
  | nil => exact hrest
  | cons next rest => exact hrest.1.symm

namespace Arena.Laid

variable {a : Arena} {memory : Memory}

theorem len_ge (h : a.Laid infos) : 32 ≤ a.len := h.tiles.le

theorem len_mod (h : a.Laid infos) : a.len % 16 = 0 := h.tiles.mod rfl

theorem liesIn (h : a.Laid infos) (hinfo : info ∈ infos) : info.LiesIn 32 a.len :=
  h.tiles.liesIn rfl hinfo

theorem liesIn_middle (h : a.Laid (front ++ info :: rest)) : info.LiesIn 32 a.len :=
  h.liesIn (by simp)

theorem fits (h : a.Laid infos) (hinfo : info ∈ infos) : info.Fits a.len :=
  (h.liesIn hinfo).fits (Nat.le_refl _) h.short

theorem fits_middle (h : a.Laid (front ++ info :: rest)) : info.Fits a.len := h.fits (by simp)

theorem fits_prologue (h : a.Laid infos) : prologueInfo.Fits a.len :=
  ⟨rfl, rfl, Nat.le_refl _, h.len_ge, h.short⟩

theorem fits_preceding (h : a.Laid (front ++ info :: rest)) :
    (front.getLast?.getD prologueInfo).Fits a.len := by
  cases hlast : front.getLast? with
  | none => exact h.fits_prologue
  | some before => exact h.fits (by simp [List.mem_of_mem_getLast? hlast])

theorem tagged_preceding (h : a.Laid (front ++ info :: rest)) :
    a.memory.Tagged (front.getLast?.getD prologueInfo) := by
  cases hlast : front.getLast? with
  | none => exact h.front
  | some before => exact h.tagged before (by simp [List.mem_of_mem_getLast? hlast])

theorem header_eq (h : a.Laid infos) (hinfo : info ∈ infos) :
    a.header info.block = .ok info.tag :=
  Arena.header_eq (h.fits hinfo) (h.tagged info hinfo)

theorem precedingTag_eq (h : a.Laid (front ++ info :: rest)) :
    a.precedingTag info.block = .ok (front.getLast?.getD prologueInfo).tag :=
  Arena.precedingTag_eq h.fits_preceding h.tagged_preceding h.tiles.stop_preceding

theorem predecessor?_eq {before : BlockInfo} (h : a.Laid (front ++ info :: rest))
    (hbefore : front.getLast? = some before) :
    a.predecessor? info.block = .ok (some before.block) := by
  have hpredecessor :=
    Arena.predecessor?_eq h.fits_preceding h.tagged_preceding h.tiles.stop_preceding
  rwa [hbefore, Option.getD_some] at hpredecessor

theorem offset_lt (h : a.Laid infos) (hinfo : info ∈ infos) : info.block.offset < a.len := by
  have hlies := h.liesIn hinfo
  have hsize := hlies.size_ge
  have hstop := hlies.stop_le
  unfold BlockInfo.stop at hstop
  omega

theorem blockAt?_address (h : a.Laid infos) (hinfo : info ∈ infos) :
    a.blockAt? (a.address info.block) = some info.block :=
  Arena.blockAt?_address (h.liesIn hinfo).aligned (h.offset_lt hinfo)

theorem successor_eq (h : a.Laid infos) (hinfo : info ∈ infos) :
    a.successor info.block = .ok (info.block.skip info.size) :=
  Arena.successor_eq (h.fits hinfo) (h.tagged info hinfo)

theorem skip_eq {next : BlockInfo} (h : a.Laid (front ++ info :: rest))
    (hnext : rest.head? = some next) : info.block.skip info.size = next.block := by
  have hstop := h.tiles.stop_eq_next
  rw [hnext] at hstop
  exact Block.ext (h.fits_middle.offset_skip.trans hstop)

/-- What stands behind a block: the header of the next one, or the epilogue. -/
theorem header_next (h : a.Laid (front ++ info :: rest)) :
    a.header (info.block.skip info.size) =
      .ok ((rest.head?.map BlockInfo.tag).getD Tag.epilogue) := by
  cases hnext : rest.head? with
  | some next =>
    rw [h.skip_eq hnext]
    exact h.header_eq (by simp [List.mem_of_mem_head? hnext])
  | none =>
    have hstop := h.tiles.stop_eq_next
    have hlen := h.len_ge
    have hmod := h.len_mod
    have hskip := h.fits_middle.offset_skip
    rw [hnext] at hstop
    change info.stop = a.len at hstop
    rw [header, Block.headerOffset_eq_ok _ (by omega), ok_bind, hskip, hstop,
      tagAt_eq (by omega) (by omega), h.last]
    rfl

/-- Changes inside blocks that miss all tags keep the layout. -/
theorem of_payloads (h : a.Laid infos)
    (hchange : a.memory.Rewrites memory fun offset _ => ∃ info ∈ infos, info.HoldsAt offset) :
    { a with memory }.Laid infos := by
  have hlen := h.len_ge
  refine ⟨h.tiles, h.short, fun info hinfo => ?_, ?_, ?_⟩
  · apply (h.tagged info hinfo).of_rewrites (h.fits hinfo) hchange
    rintro offset htag word ⟨other, hother, hholds⟩
    have hcovers := (h.fits hinfo).covers_tag htag
    have hcovered : other.Covers offset := by
      simp only [BlockInfo.HoldsAt, BlockInfo.Covers] at hholds ⊢
      omega
    obtain rfl := h.tiles.eq_of_covers hinfo hother hcovers hcovered
    simp only [BlockInfo.HasTagAt, BlockInfo.HoldsAt] at htag hholds
    omega
  · apply h.front.of_rewrites h.fits_prologue hchange
    rintro offset htag word ⟨other, hother, hholds⟩
    have hlow := (h.liesIn hother).start_le
    have hsmall := offset_lt_of_prologue_tag htag
    simp only [BlockInfo.HoldsAt] at hholds
    omega
  · have hmod := h.len_mod
    change memory.load (a.len - 8) = _
    rw [hchange.load_eq (by omega), h.last]
    rintro word ⟨other, hother, hholds⟩
    have hstop := (h.liesIn hother).stop_le
    simp only [BlockInfo.HoldsAt] at hholds
    omega

/-- Some blocks may be exchanged for others that fill the same span, if all changes lie there and
    write the new tags. -/
theorem replace (h : a.Laid (front ++ (old ++ rest)))
    (hchange : a.memory.Rewrites memory fun offset _ => ∃ info ∈ old, info.Covers offset)
    (hnew : ∀ left right, Tiles left old right → Tiles left new right)
    (htagged : ∀ info ∈ new, memory.Tagged info) :
    { a with memory }.Laid (front ++ (new ++ rest)) := by
  have hlen := h.len_ge
  have hold : ∀ {info}, info ∈ old → info ∈ front ++ (old ++ rest) := by simp +contextual
  have hkept : ∀ info, info ∈ front ∨ info ∈ rest → memory.Tagged info := by
    intro info hside
    have hinfo : info ∈ front ++ (old ++ rest) := by
      rcases hside with hside | hside <;> simp [hside]
    apply (h.tagged info hinfo).of_rewrites (h.fits hinfo) hchange
    rintro offset htag word ⟨other, hother, hcovered⟩
    have hcovers := (h.fits hinfo).covers_tag htag
    obtain rfl := h.tiles.eq_of_covers hinfo (hold hother) hcovers hcovered
    have hnodup := List.nodup_append.1 h.tiles.nodup
    have hnodup' := List.nodup_append.1 hnodup.2.1
    rcases hside with hside | hside
    · exact hnodup.2.2 _ hside _ (List.mem_append_left _ hother) rfl
    · exact hnodup'.2.2 _ hother _ hside rfl
  refine ⟨h.tiles.replace hnew, h.short, ?_, ?_, ?_⟩
  · intro info hinfo
    rcases List.mem_append.1 hinfo with hinfo | hinfo
    · exact hkept info (.inl hinfo)
    · rcases List.mem_append.1 hinfo with hinfo | hinfo
      · exact htagged info hinfo
      · exact hkept info (.inr hinfo)
  · apply h.front.of_rewrites h.fits_prologue hchange
    rintro offset htag word ⟨other, hother, hcovers⟩
    have hlow := (h.liesIn (hold hother)).start_le
    have hsmall := offset_lt_of_prologue_tag htag
    simp only [BlockInfo.Covers] at hcovers
    omega
  · have hmod := h.len_mod
    change memory.load (a.len - 8) = _
    rw [hchange.load_eq (by omega), h.last]
    rintro word ⟨other, hother, hcovers⟩
    have hstop := (h.liesIn (hold hother)).stop_le
    simp only [BlockInfo.Covers] at hcovers
    omega

end Arena.Laid

end BoundaryTag
