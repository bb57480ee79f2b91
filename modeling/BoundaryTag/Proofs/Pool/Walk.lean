import BoundaryTag.Proofs.Pool.Layout

namespace BoundaryTag

variable {a : Arena} {rest infos : List BlockInfo} {info : BlockInfo}

/-- The headers say where the blocks of an arena lie and which are in use, whatever else stands in
    the tags. -/
structure Arena.Leads (a : Arena) (infos : List BlockInfo) : Prop where
  tiles : Tiles frontBytes infos a.len
  short : a.len < UInt64.size
  header : ∀ info ∈ infos, ∃ tag, a.header info.block = .ok tag ∧ tag.size = info.size ∧
    tag.allocated = info.allocated
  front : ∃ tag, a.header prologue = .ok tag ∧ tag.size = tagBytes
  last : ∀ block : Block, block.offset = a.len → ∃ tag, a.header block = .ok tag ∧ tag.size = 0

/-- The walk from any block on lists it and those behind it. -/
theorem Arena.Leads.blocksFrom_eq (h : a.Leads infos) {block : Block}
    (hrest : ∀ info ∈ rest, info ∈ infos) (htiles : Tiles block.offset rest a.len)
    (hlow : 8 ≤ block.offset) : a.blocksFrom block = .ok rest := by
  have hshort := h.short
  have hle := htiles.le
  have hstop : block.offset - 8 + 8 = block.offset := by omega
  induction rest generalizing block with
  | nil =>
    obtain ⟨tag, hheader, hsize⟩ := h.last block htiles
    rw [blocksFrom, Block.headerOffset_eq_ok _ hlow, ok_bind, wordBytes,
      Build.add_eq_ok _ (by omega), ok_bind, if_neg (by omega), hheader, ok_bind, if_pos hsize,
      pure_eq_ok]
  | cons info rest ih =>
    obtain ⟨hblock, -, hsize, hbehind⟩ := htiles
    obtain rfl : info.block = block := Block.ext hblock
    obtain ⟨tag, hheader, htag, hstate⟩ := h.header info (hrest _ List.mem_cons_self)
    have hend := hbehind.le
    simp only [BlockInfo.stop, smallestBlock] at hend hsize
    have hskip : (info.block.skip info.size).offset = info.stop :=
      Block.offset_skip (by omega)
    have hnext : a.blocksFrom (info.block.skip info.size) = .ok rest := by
      refine ih (fun other hother => hrest other (List.mem_cons_of_mem _ hother)) ?_ ?_ ?_ ?_
      · rw [hskip]
        exact hbehind
      all_goals
        rw [hskip, BlockInfo.stop]
        omega
    rw [blocksFrom, Block.headerOffset_eq_ok _ hlow, ok_bind, wordBytes,
      Build.add_eq_ok _ (by omega), ok_bind, if_neg (by omega), hheader, ok_bind, htag,
      if_neg (by omega), hstate, if_pos (by rw [hskip, BlockInfo.stop]; omega), hnext]
    rfl

/-- The walk from the prologue finds the blocks to which headers lead. -/
theorem Pool.blocks_eq_of_leads {pool : Pool} (h : pool.arena.Leads infos) :
    pool.blocks = .ok infos := by
  obtain ⟨tag, hheader, hsize⟩ := h.front
  rw [Pool.blocks, Arena.successor, hheader, ok_bind, hsize, pure_eq_ok, ok_bind]
  exact h.blocksFrom_eq (fun _ => id) h.tiles (by decide)

theorem Arena.Laid.leads (h : a.Laid infos) : a.Leads infos where
  tiles := h.tiles
  short := h.short
  header info hinfo :=
    ⟨_, h.header_eq hinfo, (h.fits hinfo).size_tag, (h.fits hinfo).allocated_tag⟩
  front := ⟨_, Arena.header_eq h.fits_prologue h.front, h.fits_prologue.size_tag⟩
  last block hblock := by
    have hlen := h.len_ge
    have hmod := h.len_mod
    refine ⟨.epilogue, ?_, by decide⟩
    rw [header, Block.headerOffset_eq_ok _ (by omega), ok_bind, hblock,
      tagAt_eq (by omega) (by omega), h.last]

/-- The walk finds the blocks between the prologue and the epilogue. -/
theorem Pool.blocks_eq {pool : Pool} (h : pool.arena.Laid infos) : pool.blocks = .ok infos :=
  blocks_eq_of_leads h.leads

end BoundaryTag
