import BoundaryTag.Proofs.Pool.Tidy

namespace BoundaryTag

variable {start stop : Nat} {info other : BlockInfo} {rest infos blocks : List BlockInfo}

/-- The first block is in use if a block in use starts where it does. -/
theorem Tiles.allocated_iff (h : Tiles start (info :: rest) stop) :
    info.allocated = true ↔ ∃ x ∈ held (info :: rest), x.block.offset = start := by
  have hpair := List.pairwise_cons.1 h.pairwise
  obtain ⟨hstart, -, hsize, -⟩ := h
  constructor
  · intro hallocated
    exact ⟨info, mem_held.2 ⟨List.mem_cons_self, hallocated⟩, hstart⟩
  · rintro ⟨x, hx, hoffset⟩
    obtain ⟨hmem, hallocated⟩ := mem_held.1 hx
    rcases List.mem_cons.1 hmem with rfl | hbehind
    · exact hallocated
    · have hle := hpair.1 x hbehind
      simp only [BlockInfo.stop, smallestBlock] at hle hsize
      omega

/-- Behind a free block comes the next block in use. -/
theorem Settled.head?_held (h : Settled (info :: rest)) (hfree : info.allocated = false) :
    (held rest).head? = rest.head? := by
  cases rest with
  | nil => rfl
  | cons next rest =>
    have hnext := (List.isChain_cons.1 h).1 next rfl
    rw [held_cons_of_allocated (by simpa [hfree] using hnext)]
    rfl

/-- A free block ends where the next block in use starts. -/
theorem Tiles.stop_of_free (h : Tiles start (info :: rest) stop) (hsettled : Settled (info :: rest))
    (hfree : info.allocated = false) :
    info.stop = ((held rest).head?.map (·.block.offset)).getD stop := by
  have hplace : Tiles start ([] ++ info :: rest) stop := h
  rw [hsettled.head?_held hfree]
  exact hplace.stop_eq_next

/-- Two tilings of one span without free neighbours are equal if their blocks in use are, since a
    free block fills the gap between two of them. -/
theorem Tiles.eq_of_held_eq (hinfos : Tiles start infos stop) (hblocks : Tiles start blocks stop)
    (hsettled : Settled infos) (hsettled' : Settled blocks) (hheld : held infos = held blocks) :
    infos = blocks := by
  induction infos generalizing start blocks with
  | nil =>
    cases blocks with
    | nil => rfl
    | cons other rest =>
      obtain ⟨hstart, -, hsize, hrest⟩ := hblocks
      have hend : start = stop := hinfos
      have hle := hrest.le
      simp only [BlockInfo.stop, smallestBlock] at hle hsize
      omega
  | cons info rest ih =>
    cases blocks with
    | nil =>
      obtain ⟨hstart, -, hsize, hrest⟩ := hinfos
      have hend : start = stop := hblocks
      have hle := hrest.le
      simp only [BlockInfo.stop, smallestBlock] at hle hsize
      omega
    | cons other behind =>
      have hstate : info.allocated = other.allocated := by
        rw [Bool.eq_iff_iff, hinfos.allocated_iff, hblocks.allocated_iff, hheld]
      have hfirst : info = other ∧ held rest = held behind := by
        cases hallocated : info.allocated with
        | true =>
          rw [held_cons_of_allocated hallocated,
            held_cons_of_allocated (hstate.symm.trans hallocated)] at hheld
          exact List.cons.inj hheld
        | false =>
          have hfree := hstate.symm.trans hallocated
          rw [held_cons_of_free hallocated, held_cons_of_free hfree] at hheld
          have hstop := hinfos.stop_of_free hsettled hallocated
          rw [hheld, ← hblocks.stop_of_free hsettled' hfree] at hstop
          have hblock : info.block = other.block := Block.ext (hinfos.1.trans hblocks.1.symm)
          simp only [BlockInfo.stop, hblock] at hstop
          refine ⟨?_, hheld⟩
          rcases info with ⟨block, size, allocated⟩
          rcases other with ⟨_, _, _⟩
          simp only at hblock hstate hstop
          rw [hblock, hstate, Nat.add_left_cancel hstop]
      obtain ⟨rfl, hbehind⟩ := hfirst
      rw [ih hinfos.2.2.2 hblocks.2.2.2 (List.isChain_cons.1 hsettled).2
        (List.isChain_cons.1 hsettled').2 hbehind]

/-- Tiles are listed in the order in which they lie. So two tilings with the same blocks in use list
    these in the same order. -/
theorem Tiles.held_eq_of_perm {start' stop' : Nat} (hinfos : Tiles start infos stop)
    (hblocks : Tiles start' blocks stop') (hperm : (held infos).Perm (held blocks)) :
    held infos = held blocks := by
  apply List.Perm.eq_of_pairwise _ (hinfos.pairwise.filter _) (hblocks.pairwise.filter _) hperm
  intro x y hx hy hxy hyx
  have hsize := hinfos.size_ge (mem_held.1 hx).1
  simp only [BlockInfo.stop] at hxy hyx
  omega

namespace Pool.Orderly

variable {pool after : Pool} {chains links : Chains}

/-- Two pools over the same span have the same blocks if they have the same blocks in use. -/
theorem blocks_eq (h : pool.Orderly blocks chains) (hafter : after.Orderly infos links)
    (hlen : after.arena.len = pool.arena.len) (hheld : held infos = held blocks) :
    infos = blocks := by
  have htiles := hafter.represents.laid.tiles
  rw [hlen] at htiles
  exact htiles.eq_of_held_eq h.represents.laid.tiles hafter.tidy.settled h.tidy.settled hheld

/-- The blocks of a pool decide the members of its lists. -/
theorem chains_perm (h : pool.Orderly blocks chains) (hafter : after.Orderly blocks links)
    (sizeClass : SizeClass) : (links sizeClass).Perm (chains sizeClass) := by
  refine (List.perm_ext_iff_of_nodup (hafter.represents.threads.nodup sizeClass)
    (h.represents.threads.nodup sizeClass)).2 fun block => ?_
  rw [hafter.mem_chains_iff, h.mem_chains_iff]

end Pool.Orderly

end BoundaryTag
