import BoundaryTag.Proofs.Audit.Report

namespace BoundaryTag

variable {a : Arena} {pool : Pool} {infos blocks : List BlockInfo} {info : BlockInfo}
  {chains : Chains}

theorem Memory.Tagged.headerAt_eq {m : Memory} {len : Nat} (h : m.Tagged info)
    (hfits : info.Fits len) : m.headerAt info.block = info.tag :=
  congrArg Tag.mk (h.header hfits)

theorem Memory.Tagged.marks {m : Memory} {len : Nat} (h : m.Tagged info) (hfits : info.Fits len) :
    m.Marks info where
  size_eq := by rw [h.headerAt_eq hfits, hfits.size_tag]
  allocated_eq := by rw [h.headerAt_eq hfits, hfits.allocated_tag]
  footer_eq := by rw [h.footer hfits, h.header hfits]

/-- An arena that is laid out as blocks without free neighbours is regular. -/
theorem Arena.Laid.regular (h : a.Laid infos) (hsettled : Settled infos) : a.Regular infos where
  has_prologue := ⟨h.front 8 (.inl rfl), h.front 16 (.inr rfl)⟩
  blocks := ⟨h.tiles, fun info hinfo => (h.tagged info hinfo).marks (h.fits hinfo), hsettled⟩
  has_epilogue := by
    rw [HasEpilogue, h.last]
    decide

/-- From any of its members on, a list that is linked in both directions is a chain. -/
theorem Pool.Represents.chained (h : pool.Represents blocks chains)
    (hplaced : pool.arena.WellPlaced) {sizeClass : SizeClass} {front rest : List Block}
    (hsplit : chains sizeClass = front ++ rest) :
    pool.arena.Chained sizeClass front.getLast? rest.head? rest := by
  induction rest generalizing front with
  | nil => rfl
  | cons block rest ih =>
    obtain ⟨info, hinfo, rfl, hfree, hclass⟩ := h.listed (hsplit ▸ List.mem_append_right _
      List.mem_cons_self)
    have hlies := h.laid.liesIn hinfo
    have hlow := hlies.start_le
    have hsize := hlies.size_ge
    have hstop := hlies.stop_le
    rw [BlockInfo.stop] at hstop
    have hfollowable : pool.arena.Followable info.block :=
      hplaced.followable_iff.2 ⟨hlies.aligned, by omega, by omega⟩
    have hmarks := (h.laid.tagged info hinfo).marks (h.laid.fits hinfo)
    have hlink := hfollowable.link_eq
    rw [h.threads.link_eq hsplit, Except.ok.injEq, Link.mk.injEq] at hlink
    refine ⟨rfl, ⟨hfollowable, ?_, ?_, hlink.1.symm⟩, ?_⟩
    · rw [hmarks.allocated_eq, hfree]
    · rw [hmarks.size_eq, hclass]
    · rw [← hlink.2, ← List.getLast?_concat (l := front)]
      exact ih (by rw [hsplit, List.append_cons])

/-- What an audit asks of a pool holds between operations. -/
theorem Pool.Orderly.consistent (h : pool.Orderly blocks chains)
    (hplaced : pool.arena.WellPlaced) : pool.Consistent blocks chains where
  regular := h.represents.laid.regular h.tidy.settled
  lists sizeClass := by
    have hsplit : chains sizeClass = [] ++ chains sizeClass := rfl
    rw [Lists, h.represents.threads.head_eq_some]
    exact h.represents.chained hplaced hsplit
  count_eq := by
    have hlength := h.flatMap_chains_perm.length_eq
    rwa [List.length_map] at hlength

end BoundaryTag
