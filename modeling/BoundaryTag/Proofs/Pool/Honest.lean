import BoundaryTag.Proofs.Pool.Tidy
import BoundaryTag.Proofs.Pool.Walk

namespace BoundaryTag

namespace Pool

/-- If the word at `offset` is flagged like the header of a block in use, it is one. -/
def Honest (pool : Pool) (offset : Nat) : Prop :=
  ∀ blocks, pool.blocks = .ok blocks →
    (Tag.mk (pool.arena.memory.load offset)).allocated = true →
      ∃ info ∈ held blocks, info.block.offset = offset + 8

/-- Where headers may stand, words that are honest stay so, except in the payload of `written`. A
    header that is no longer one stays behind in a free block, where merges, cuts and links go on
    around it. All they write there are multiples of 16, apart from headers of blocks that come into
    use. -/
def KeepsHonest (pool after : Pool) (written : List BlockInfo) : Prop :=
  ∀ offset, offset % 16 = 8 → offset + 8 < pool.arena.len → pool.Honest offset →
    after.Honest offset ∨ ∃ info ∈ written, info.HoldsAt offset

variable {pool middle after : Pool}
  {front old new rest blocks infos written more : List BlockInfo} {info : BlockInfo}
  {offset : Nat}

theorem honest_iff (h : pool.arena.Laid blocks) : pool.Honest offset ↔
    ((Tag.mk (pool.arena.memory.load offset)).allocated = true →
      ∃ info ∈ held blocks, info.block.offset = offset + 8) := by
  simp only [Honest, blocks_eq h, Except.ok.injEq, forall_eq']

theorem KeepsHonest.refl (pool : Pool) (written : List BlockInfo) :
    pool.KeepsHonest pool written :=
  fun _ _ _ => .inl

theorem KeepsHonest.trans (hfirst : pool.KeepsHonest middle written)
    (hsecond : middle.KeepsHonest after written) (hlen : pool.arena.len ≤ middle.arena.len) :
    pool.KeepsHonest after written := by
  intro offset hplace hinside hhonest
  rcases hfirst offset hplace hinside hhonest with hhonest | hwritten
  · exact hsecond offset hplace (hinside.trans_le hlen) hhonest
  · exact .inr hwritten

theorem KeepsHonest.mono (h : pool.KeepsHonest after written)
    (hmore : ∀ info ∈ written, info ∈ more) : pool.KeepsHonest after more := by
  intro offset hplace hinside hhonest
  apply (h offset hplace hinside hhonest).imp_right
  rintro ⟨info, hinfo, hholds⟩
  exact ⟨info, hmore info hinfo, hholds⟩

/-- Any words may be written to a payload. -/
theorem keepsHonest_of_payload (h : pool.arena.Laid blocks) (hafter : after.arena.Laid blocks)
    (hchange : pool.arena.memory.Rewrites after.arena.memory fun offset _ => info.HoldsAt offset) :
    pool.KeepsHonest after [info] := by
  intro offset hplace _ hhonest
  rw [honest_iff h] at hhonest
  rcases hchange offset (by omega) with hkept | hholds
  · exact .inl ((honest_iff hafter).2 (hkept ▸ hhonest))
  · exact .inr ⟨info, List.mem_singleton.2 rfl, hholds⟩

/-- Words without a flag may be written anywhere, as long as no block falls out of use. -/
theorem keepsHonest_of_even (h : pool.arena.Laid blocks) (hafter : after.arena.Laid infos)
    (hheld : ∀ info ∈ held blocks, info ∈ held infos)
    (hchange : pool.arena.memory.Rewrites after.arena.memory fun offset word =>
      offset + 8 < pool.arena.len → word.toNat % 16 = 0) : pool.KeepsHonest after [] := by
  intro offset hplace hinside hhonest
  rw [honest_iff h] at hhonest
  refine .inl ((honest_iff hafter).2 fun hflag => ?_)
  rcases hchange offset (by omega) with hkept | heven
  · rw [hkept] at hflag
    obtain ⟨info, hinfo, hheader⟩ := hhonest hflag
    exact ⟨info, hheld info hinfo, hheader⟩
  · have hzero := heven hinside
    simp only [Tag.allocated_eq, beq_iff_eq] at hflag
    omega

/-- New tags for a span. A header that stood where no new one stands belongs to another block. -/
theorem keepsHonest_of_retag (h : pool.arena.Laid (front ++ (old ++ rest)))
    (hafter : after.arena.Laid (front ++ (new ++ rest)))
    (hstarts : ∀ x ∈ old, ∃ y ∈ new, y.block = x.block)
    (hchange : pool.arena.memory.Rewrites after.arena.memory fun offset _ =>
      ∃ y ∈ new, y.HasTagAt offset) : pool.KeepsHonest after [] := by
  intro offset hplace hinside hhonest
  rw [honest_iff h] at hhonest
  refine .inl ((honest_iff hafter).2 fun hflag => ?_)
  have hmem : ∀ y ∈ new, y ∈ front ++ (new ++ rest) := by simp +contextual
  by_cases htag : ∃ y ∈ new, y.HasTagAt offset
  · obtain ⟨y, hy, htag⟩ := htag
    have hfits := hafter.fits (hmem y hy)
    rw [hafter.tagged y (hmem y hy) offset htag] at hflag
    refine ⟨y, mem_held.2 ⟨hmem y hy, hfits.allocated_tag.symm.trans hflag⟩, ?_⟩
    -- Footers end where headers begin, so they do not stand where headers may.
    have haligned := hfits.aligned
    have hmod := hfits.size_mod
    simp only [BlockInfo.HasTagAt, BlockInfo.stop] at htag
    omega
  · rw [hchange.load_eq (by omega) fun _ => htag] at hflag
    obtain ⟨info, hinfo, hheader⟩ := hhonest hflag
    obtain ⟨hinfo, hallocated⟩ := mem_held.1 hinfo
    refine ⟨info, mem_held.2 ⟨?_, hallocated⟩, hheader⟩
    simp only [List.mem_append] at hinfo ⊢
    rcases hinfo with hinfo | hinfo | hinfo
    · exact .inl hinfo
    · obtain ⟨y, hy, hblock⟩ := hstarts info hinfo
      exact absurd ⟨y, hy, .inl (by rw [hblock, hheader])⟩ htag
    · exact .inr (.inr hinfo)

end Pool

end BoundaryTag
