import BoundaryTag.Pool.Fit
import BoundaryTag.Proofs.Pool.Split
import BoundaryTag.Proofs.Pool.Tidy

namespace BoundaryTag

/-- What a block becomes when no more than its first `size` bytes are in use, if there are enough
    others for a block. -/
def BlockInfo.carve (info : BlockInfo) (size : Nat) : List BlockInfo :=
  if info.size - size < smallestBlock then [{ info with allocated := true }]
  else [info.firstPart size true, info.lastPart size false]

/-- The lists after a free block was taken into use so. -/
def Chains.carve (chains : Chains) (info : BlockInfo) (size : Nat) : Chains :=
  if info.size - size < smallestBlock then chains.without [info.block]
  else
    let last := info.lastPart size false
    (chains.without [info.block]).push (SizeClass.ofSize last.size) last.block

section Carve

variable {front rest : List BlockInfo} {chains : Chains} {info : BlockInfo} {size : Nat}

theorem BlockInfo.exists_carve (info : BlockInfo) (size : Nat) :
    ∃ taken, ∃ remainder : Option BlockInfo, info.carve size = taken :: remainder.toList := by
  rw [BlockInfo.carve]
  split
  · exact ⟨_, none, rfl⟩
  · exact ⟨_, some _, rfl⟩

/-- The block in use, and the free block that may be left behind it. The first has as many bytes as
    it should, and too few more for a block. -/
theorem BlockInfo.carve_spec {taken : BlockInfo} {remainder : Option BlockInfo}
    (hcarve : info.carve size = taken :: remainder.toList) (hle : size ≤ info.size) :
    taken.block = info.block ∧ taken.allocated = true ∧ size ≤ taken.size ∧
      taken.size < size + smallestBlock ∧ ∀ part ∈ remainder, part.allocated = false := by
  rw [BlockInfo.carve] at hcarve
  split at hcarve
  · rename_i hsmall
    obtain ⟨rfl, hnone⟩ := List.cons.inj hcarve
    obtain rfl : remainder = none := by simpa using hnone.symm
    exact ⟨rfl, rfl, hle, (Nat.sub_lt_iff_lt_add' hle).1 hsmall, nofun⟩
  · obtain ⟨rfl, hsome⟩ := List.cons.inj hcarve
    obtain rfl : remainder = some (info.lastPart size false) := by simpa using hsome.symm
    refine ⟨rfl, rfl, Nat.le_refl _, Nat.lt_add_of_pos_right (by decide), ?_⟩
    rintro _ ⟨⟩
    rfl

theorem Chains.mem_carve {sizeClass : SizeClass} {block : Block} (hmem : block ∈ chains sizeClass)
    (hne : block ≠ info.block) : block ∈ chains.carve info size sizeClass := by
  have hkept : block ∈ chains.without [info.block] sizeClass :=
    Chains.mem_without.2 ⟨hmem, by simpa using hne⟩
  rw [Chains.carve]
  split
  · exact hkept
  · exact Chains.mem_push.2 (.inr hkept)

theorem Chains.lastPart_mem_carve (hrest : ¬ info.size - size < smallestBlock) :
    (info.lastPart size false).block ∈
      chains.carve info size (SizeClass.ofSize (info.lastPart size false).size) := by
  rw [Chains.carve, if_neg hrest]
  exact Chains.mem_push.2 (.inl ⟨rfl, rfl⟩)

theorem Settled.carve (h : Settled (front ++ info :: rest)) (hfree : info.allocated = false) :
    Settled (front ++ (info.carve size ++ rest)) := by
  obtain ⟨hfront, hrest, -, hnext⟩ := settled_middle.1 h
  have hnext : ∀ y ∈ rest.head?, y.allocated = true := by simpa [hfree] using hnext
  rw [BlockInfo.carve]
  split
  · exact settled_middle.2 ⟨hfront, hrest, fun _ _ => .inr rfl, fun _ _ => .inl rfl⟩
  · refine settled_middle.2 ⟨hfront, ?_, fun _ _ => .inr rfl, fun _ _ => .inl rfl⟩
    exact List.isChain_cons.2 ⟨fun y hy => .inr (hnext y hy), hrest⟩

theorem Tidy.carve {stop : Nat} (h : Tidy (front ++ info :: rest) chains)
    (htiles : Tiles frontBytes (front ++ info :: rest) stop) (hfree : info.allocated = false)
    (size : Nat) :
    Tidy (front ++ (info.carve size ++ rest)) (chains.carve info size) := by
  refine ⟨fun x hx hxfree => ?_, h.settled.carve hfree⟩
  have hside : x ∈ front ∨ x ∈ rest →
      x.block ∈ chains.carve info size (SizeClass.ofSize x.size) := by
    intro hside
    have hmem : x ∈ front ++ info :: rest := by
      rcases hside with hside | hside <;> simp [hside]
    exact Chains.mem_carve (h.listed x hmem hxfree) (htiles.block_ne rfl hside)
  rcases List.mem_append.1 hx with hx | hx
  · exact hside (.inl hx)
  · rcases List.mem_append.1 hx with hx | hx
    · rw [BlockInfo.carve] at hx
      split at hx
      · obtain rfl := List.mem_singleton.1 hx
        cases hxfree
      · rename_i hrest
        simp only [List.mem_cons, List.not_mem_nil, or_false] at hx
        rcases hx with rfl | rfl
        · cases hxfree
        · exact Chains.lastPart_mem_carve hrest
    · exact hside (.inr hx)

end Carve

namespace Pool.Represents

variable {pool : Pool} {front rest blocks : List BlockInfo} {chains : Chains} {info : BlockInfo}

/-- Taking a block begins by taking it off its list. -/
theorem detach (h : pool.Represents (front ++ info :: rest) chains)
    (hlisted : info.block ∈ chains (SizeClass.ofSize info.size)) :
    ∃ index memory, pool.unlist info.block = .ok (pool.rewrite index memory) ∧
      Represents (pool.rewrite index memory) (front ++ info :: rest)
        (chains.without [info.block]) ∧
      (∀ sizeClass, info.block ∉ chains.without [info.block] sizeClass) ∧
      pool.KeepsHonest (pool.rewrite index memory) [] ∧
      pool.arena.memory.Rewrites memory fun offset word =>
        chains.HasLinkAt offset ∧ word.toNat % 16 = 0 := by
  obtain ⟨index, memory, hunlist, hafter, hchange⟩ := h.unlist (by simp) hlisted
  refine ⟨index, memory, hunlist, hafter, fun sizeClass hblock => ?_, ?_, hchange⟩
  · exact (Chains.mem_without.1 hblock).2 (by simp)
  · exact keepsHonest_of_even h.laid hafter.laid (fun _ => id)
      (hchange.mono fun _ _ hlink _ => hlink.2)

/-- A block that leaves too few bytes for another one is taken whole. Only its tags change, and
    links. -/
theorem take_whole (h : pool.Represents (front ++ info :: rest) chains) {size : Nat}
    (hlisted : info.block ∈ chains (SizeClass.ofSize info.size))
    (hle : size ≤ info.size) (hsmall : info.size - size < smallestBlock) :
    ∃ index memory, pool.take info.block size = .ok (pool.rewrite index memory) ∧
      Represents (pool.rewrite index memory) (front ++ { info with allocated := true } :: rest)
        (chains.without [info.block]) ∧
      pool.KeepsHonest (pool.rewrite index memory) [] ∧
      pool.arena.memory.Rewrites memory fun offset word =>
        info.HasTagAt offset ∨ chains.HasLinkAt offset ∧ word.toNat % 16 = 0 := by
  obtain ⟨index, memory₁, hunlist, h₁, hunlisted, hhonest₁, hchange₁⟩ := h.detach hlisted
  have hinfo : info ∈ front ++ info :: rest := by simp
  obtain ⟨tag, hheader, htag, -⟩ := h₁.header_eq hinfo
  obtain ⟨memory, hmark, h₂, hhonest₂, hchange₂⟩ := h₁.mark hunlisted true
  refine ⟨index, memory, ?_, h₂, hhonest₁.trans hhonest₂ (Nat.le_refl _),
    (hchange₁.mono fun _ _ => .inr).trans (hchange₂.mono fun _ _ hmarked => .inl hmarked.1)⟩
  simp only [Pool.take, hunlist, ok_bind, hheader, htag, Build.sub_eq_ok _ hle, if_pos hsmall]
  exact hmark

/-- Taking a block does not fail. It touches the words of that block, and links. -/
theorem take (h : pool.Represents (front ++ info :: rest) chains) {size : Nat}
    (hlisted : info.block ∈ chains (SizeClass.ofSize info.size))
    (hmod : size % 16 = 0) (hge : 32 ≤ size) (hle : size ≤ info.size) :
    ∃ index memory, pool.take info.block size = .ok (pool.rewrite index memory) ∧
      Represents (pool.rewrite index memory) (front ++ (info.carve size ++ rest))
        (chains.carve info size) ∧
      pool.KeepsHonest (pool.rewrite index memory) [] ∧
      pool.arena.memory.Rewrites memory fun offset word =>
        info.Covers offset ∨ chains.HasLinkAt offset ∧ word.toNat % 16 = 0 := by
  have hfits := h.laid.fits_middle
  rw [BlockInfo.carve, Chains.carve]
  split
  · rename_i hsmall
    obtain ⟨index, memory, htake, hafter, hhonest, hchange⟩ := h.take_whole hlisted hle hsmall
    exact ⟨index, memory, htake, hafter, hhonest,
      hchange.mono fun _ _ hword => hword.imp_left hfits.covers_tag⟩
  · rename_i hrest
    obtain ⟨index₁, memory₁, hunlist, h₁, hunlisted, hhonest₁, hchange₁⟩ := h.detach hlisted
    have hinfo : info ∈ front ++ info :: rest := by simp
    obtain ⟨tag, hheader, htag, -⟩ := h₁.header_eq hinfo
    have hcuts : info.Cuts size := ⟨hmod, hge, by
      simp only [smallestBlock] at hrest
      omega⟩
    obtain ⟨h₂, hhonest₂, hchange₂⟩ := h₁.cut hunlisted hcuts true false
    have hlast : info.lastPart size false ∈
        front ++ info.firstPart size true :: info.lastPart size false :: rest := by simp
    have hfresh := h₁.fresh_lastPart hunlisted hcuts false
    obtain ⟨index₃, memory₃, henlist, h₃, hchange₃⟩ := h₂.enlist hlast rfl hfresh
    have hhonest₃ : Pool.KeepsHonest _ (pool.rewrite index₃ memory₃) [] :=
      keepsHonest_of_even h₂.laid h₃.laid (fun _ => id) (hchange₃.mono fun _ _ hlink _ => hlink.2)
    refine ⟨index₃, memory₃, ?_, ?_,
      (hhonest₁.trans hhonest₂ (Nat.le_refl _)).trans hhonest₃ (Nat.le_refl _), ?_⟩
    · have hwhole := h₁.laid.fits_middle
      simp only [Pool.take, hunlist, ok_bind, hheader, htag, Build.sub_eq_ok _ hle, if_neg hrest]
      rw [putTags_firstPart hcuts hwhole, ok_bind, putTags_lastPart hcuts hwhole, ok_bind]
      exact henlist
    · simpa using h₃
    · refine (hchange₁.mono ?_).trans ((hchange₂.mono ?_).trans (hchange₃.mono ?_))
      · exact fun offset word hlink => .inr hlink
      · exact fun offset word hcovers => .inl hcovers
      · rintro offset word ⟨⟨sizeClass, block, hblock, hlink⟩, hword⟩
        rcases Chains.mem_push.1 hblock with ⟨-, rfl⟩ | hblock
        · have hholds := (h₂.laid.liesIn hlast).holds_link hlink
          exact .inl (hcuts.covers_lastPart hfits hholds.covers)
        · exact .inr ⟨⟨sizeClass, block, (Chains.mem_without.1 hblock).1, hlink⟩, hword⟩

end Pool.Represents

end BoundaryTag
