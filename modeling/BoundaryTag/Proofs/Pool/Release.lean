import BoundaryTag.Pool.Release
import BoundaryTag.Proofs.Pool.Coalesce
import BoundaryTag.Proofs.Pool.Take

namespace BoundaryTag.Pool

variable {pool : Pool} {front rest blocks : List BlockInfo} {chains : Chains} {info : BlockInfo}

/-- A free block that is not listed yet is listed. It may be the only free block between two
    others. -/
theorem Represents.enlist_unmerged (h : pool.Represents (front ++ info :: rest) chains)
    (hfree : info.allocated = false) (hfresh : ∀ sizeClass, info.block ∉ chains sizeClass)
    (hlisted : ∀ x, x ∈ front ∨ x ∈ rest → x.allocated = false →
      x.block ∈ chains (SizeClass.ofSize x.size))
    (hfront : Settled front) (hrest : Settled rest) :
    ∃ index memory, pool.enlist info.block = .ok (pool.rewrite index memory) ∧
      Unmerged (pool.rewrite index memory) front info rest
        (chains.push (SizeClass.ofSize info.size) info.block) ∧
      pool.arena.memory.Rewrites memory fun offset word =>
        (chains.push (SizeClass.ofSize info.size) info.block).HasLinkAt offset ∧
          word.toNat % 16 = 0 := by
  obtain ⟨index, memory, henlist, hafter, hchange⟩ := h.enlist (by simp) hfree hfresh
  refine ⟨index, memory, henlist, ⟨hafter, hfree, fun x hx hxfree => ?_, hfront, hrest⟩, hchange⟩
  simp only [List.mem_append, List.mem_cons] at hx
  rcases hx with hx | rfl | hx
  · exact Chains.mem_push.2 (.inr (hlisted x (.inl hx) hxfree))
  · exact Chains.mem_push.2 (.inl ⟨rfl, rfl⟩)
  · exact Chains.mem_push.2 (.inr (hlisted x (.inr hx) hxfree))

/-- A free block that is not listed yet is listed and merged. -/
theorem Represents.reclaim (h : pool.Represents (front ++ info :: rest) chains)
    (hfree : info.allocated = false) (hfresh : ∀ sizeClass, info.block ∉ chains sizeClass)
    (hlisted : ∀ x, x ∈ front ∨ x ∈ rest → x.allocated = false →
      x.block ∈ chains (SizeClass.ofSize x.size))
    (hfront : Settled front) (hrest : Settled rest) :
    ∃ listed index memory, pool.enlist info.block = .ok listed ∧
      listed.coalesce info.block =
        .ok ((BlockInfo.merge (freeLast? front) info (freeFirst? rest)).block,
          pool.rewrite index memory) ∧
      Orderly (pool.rewrite index memory) (mergeAt front info rest)
        ((chains.push (SizeClass.ofSize info.size) info.block).mergeAt front info rest) ∧
      pool.KeepsHonest (pool.rewrite index memory) [] ∧
      pool.arena.memory.Rewrites memory fun offset word =>
        ((chains.push (SizeClass.ofSize info.size) info.block).HasLinkAt offset ∨
          ∃ x ∈ partsAt front info rest, x.HasTagAt offset) ∧ word.toNat % 16 = 0 := by
  obtain ⟨index₁, memory₁, henlist, h₁, hchange₁⟩ :=
    h.enlist_unmerged hfree hfresh hlisted hfront hrest
  obtain ⟨index₂, memory₂, hcoalesce, h₂, hchange₂⟩ := h₁.coalesce
  have hchange := (hchange₁.mono fun _ _ hlink => hlink.imp_left .inl).trans hchange₂
  refine ⟨_, index₂, memory₂, henlist, hcoalesce, h₂, ?_, hchange⟩
  refine keepsHonest_of_even h.laid h₂.represents.laid ?_
    (hchange.mono fun _ _ heven _ => heven.2)
  rw [held_mergeAt, held_append, held_cons_of_free hfree]
  exact fun _ => id

namespace Orderly

/-- A block in use is marked free, listed and merged. -/
theorem release (h : pool.Orderly (front ++ info :: rest) chains)
    (hallocated : info.allocated = true) :
    ∃ index memory,
      pool.release (pool.arena.address info.block) = .ok (pool.rewrite index memory) ∧
      Orderly (pool.rewrite index memory) (mergeAt front { info with allocated := false } rest)
        ((chains.push (SizeClass.ofSize info.size) info.block).mergeAt front
          { info with allocated := false } rest) ∧
      pool.KeepsHonest (pool.rewrite index memory) [] ∧
      pool.arena.memory.Rewrites memory fun offset word =>
        ((chains.push (SizeClass.ofSize info.size) info.block).HasLinkAt offset ∨
          ∃ x ∈ partsAt front { info with allocated := false } rest, x.HasTagAt offset) ∧
          word.toNat % 16 = 0 := by
  have hinfo : info ∈ front ++ info :: rest := by simp
  have hunlisted := h.represents.not_listed hinfo hallocated
  have hfits := h.represents.laid.fits_middle
  obtain ⟨hfront, hrest, -⟩ := settled_middle.1 h.tidy.settled
  obtain ⟨tag, hheader, hsize, hflag⟩ := h.represents.header_eq hinfo
  obtain ⟨memory₁, hmark, h₁, hhonest₁, hchange₁⟩ := h.represents.mark hunlisted false
  obtain ⟨listed, index₂, memory₂, henlist, hcoalesce, h₂, hhonest₂, hchange₂⟩ :=
    h₁.reclaim rfl hunlisted (fun x hx => h.tidy.listed x (by rcases hx with hx | hx <;> simp [hx]))
      hfront hrest
  refine ⟨index₂, memory₂, ?_, h₂, hhonest₁.trans hhonest₂ (Nat.le_refl _),
    (hchange₁.mono ?_).trans hchange₂⟩
  · have hset : tag.setAllocated false = Tag.ofSize info.size false := by
      rw [Tag.setAllocated, hsize]
    have hlist : (pool.rewrite pool.index memory₁).enlist info.block = .ok listed := henlist
    have hmerge : listed.coalesce info.block = .ok (_, pool.rewrite index₂ memory₂) := hcoalesce
    simp only [Pool.release, h.represents.laid.blockAt?_address hinfo, Option.isSome_some,
      Build.require_eq_ok, hheader, hflag, hallocated, Tag.free, hset, hmark, hlist, hmerge,
      ok_bind, pure_eq_ok, Bool.not_true, Bool.false_eq_true, if_false]
  · rintro offset word ⟨htag, rfl⟩
    refine ⟨.inr ⟨{ info with allocated := false }, by simp [partsAt], htag⟩, ?_⟩
    rw [Tag.toNat_ofSize hfits.size_mod hfits.size_lt]
    exact hfits.size_mod

/-- The front of a block in use is cut off and freed. -/
theorem splitLead (h : pool.Orderly (front ++ info :: rest) chains)
    (hallocated : info.allocated = true) {lead : Nat} (hcuts : info.Cuts lead) :
    ∃ index memory, pool.splitLead info.block lead =
        .ok ((info.lastPart lead true).block, pool.rewrite index memory) ∧
      Orderly (pool.rewrite index memory)
        (mergeAt front (info.firstPart lead false) (info.lastPart lead true :: rest))
        ((chains.push (SizeClass.ofSize lead) info.block).mergeAt front
          (info.firstPart lead false) (info.lastPart lead true :: rest)) ∧
      pool.KeepsHonest (pool.rewrite index memory) [] ∧
      pool.arena.memory.Rewrites memory fun offset _ =>
        Loose (front ++ info :: rest) offset ∨ info.Covers offset := by
  have hinfo : info ∈ front ++ info :: rest := by simp
  have hunlisted := h.represents.not_listed hinfo hallocated
  have hfits := h.represents.laid.fits_middle
  have hsize := hcuts.size_ge
  have hrest := hcuts.rest_ge
  obtain ⟨hfrontSettled, hrestSettled, -⟩ := settled_middle.1 h.tidy.settled
  obtain ⟨tag, hheader, htag, -⟩ := h.represents.header_eq hinfo
  obtain ⟨h₁, hhonest₁, hchange₁⟩ := h.represents.cut hunlisted hcuts false true
  have hlisted : ∀ x, x ∈ front ∨ x ∈ info.lastPart lead true :: rest → x.allocated = false →
      x.block ∈ chains (SizeClass.ofSize x.size) := by
    rintro x (hx | hx) hfree
    · exact h.tidy.listed x (by simp [hx]) hfree
    · rcases List.mem_cons.1 hx with rfl | hx
      · cases hfree
      · exact h.tidy.listed x (by simp [hx]) hfree
  have hbehind : Settled (info.lastPart lead true :: rest) :=
    List.isChain_cons.2 ⟨fun _ _ => .inl rfl, hrestSettled⟩
  obtain ⟨listed, index₂, memory₂, henlist, hcoalesce, h₂, hhonest₂, hchange₂⟩ :=
    h₁.reclaim rfl hunlisted hlisted hfrontSettled hbehind
  refine ⟨index₂, memory₂, ?_, h₂, hhonest₁.trans hhonest₂ (Nat.le_refl _),
    hchange₁.mono (fun _ _ => .inr) |>.trans (hchange₂.mono ?_)⟩
  · have hfirst := putTags_firstPart hcuts hfits false
    have hlast := putTags_lastPart hcuts hfits false true
    have hlist : (pool.rewrite pool.index
        (pool.arena.memory.putParts info lead false true)).enlist info.block = .ok listed := henlist
    have hmerge : listed.coalesce info.block = .ok (_, pool.rewrite index₂ memory₂) := hcoalesce
    have hdiff : ∀ build : Build, build.sub info.size lead = .ok (info.size - lead) := fun build =>
      build.sub_eq_ok (by omega)
    rw [Pool.splitLead, if_neg (by omega)]
    simp only [hheader, htag, hfirst, hdiff, hlast, hlist, hmerge, ok_bind, pure_eq_ok]
    rfl
  · rintro offset word ⟨hmerge, -⟩
    exact hcuts.loose_of_parts hfits (h₁.loose_of_reclaim rfl hmerge)

/-- The end of a block in use is cut off and freed, if it is large enough for a block. -/
theorem splitTail (h : pool.Orderly (front ++ info :: rest) chains)
    (hallocated : info.allocated = true) {size : Nat} (hmod : size % 16 = 0) (hge : 32 ≤ size)
    (hle : size ≤ info.size) :
    ∃ taken, ∃ part : Option BlockInfo, ∃ chains' index memory,
      info.carve size = taken :: part.toList ∧
      pool.splitTail info.block size = .ok (pool.rewrite index memory) ∧
      Orderly (pool.rewrite index memory) (front ++ taken :: absorbFirst part rest) chains' ∧
      pool.KeepsHonest (pool.rewrite index memory) [] ∧
      pool.arena.memory.Rewrites memory fun offset _ =>
        Loose (front ++ info :: rest) offset ∨ info.Covers offset := by
  have hinfo : info ∈ front ++ info :: rest := by simp
  have hunlisted := h.represents.not_listed hinfo hallocated
  have hfits := h.represents.laid.fits_middle
  obtain ⟨tag, hheader, htag, -⟩ := h.represents.header_eq hinfo
  by_cases hsmall : info.size - size < smallestBlock
  · have hcarve : info.carve size = [info] := by
      obtain ⟨block, whole, allocated⟩ := info
      rw [BlockInfo.carve, if_pos hsmall, ← hallocated]
    refine ⟨info, none, chains, pool.index, pool.arena.memory, hcarve, ?_, h, .refl _ _, .refl _ _⟩
    simp only [Pool.splitTail, hheader, htag, Build.sub_eq_ok _ hle, ok_bind, if_pos hsmall]
    rfl
  · have hcuts : info.Cuts size := ⟨hmod, hge, by
      simp only [smallestBlock] at hsmall
      omega⟩
    obtain ⟨hfrontSettled, hrestSettled, -⟩ := settled_middle.1 h.tidy.settled
    obtain ⟨h₁, hhonest₁, hchange₁⟩ := h.represents.cut hunlisted hcuts true false
    have hfresh := h.represents.fresh_lastPart hunlisted hcuts false
    have hlisted : ∀ x, x ∈ front ++ [info.firstPart size true] ∨ x ∈ rest →
        x.allocated = false → x.block ∈ chains (SizeClass.ofSize x.size) := by
      rintro x (hx | hx) hfree
      · rcases List.mem_append.1 hx with hx | hx
        · exact h.tidy.listed x (by simp [hx]) hfree
        · rw [List.mem_singleton.1 hx] at hfree
          cases hfree
      · exact h.tidy.listed x (by simp [hx]) hfree
    have hbefore : Settled (front ++ [info.firstPart size true]) :=
      settled_middle.2 ⟨hfrontSettled, .nil, fun _ _ => .inr rfl, by simp⟩
    rw [List.append_cons] at h₁
    obtain ⟨listed, index₂, memory₂, henlist, hcoalesce, h₂, hhonest₂, hchange₂⟩ :=
      h₁.reclaim rfl hfresh hlisted hbefore hrestSettled
    rw [mergeAt_of_allocated rfl] at h₂
    refine ⟨info.firstPart size true, some (info.lastPart size false), _, index₂, memory₂,
      if_neg hsmall, ?_, h₂, hhonest₁.trans hhonest₂ (Nat.le_refl _),
      hchange₁.mono (fun _ _ => .inr) |>.trans (hchange₂.mono ?_)⟩
    · have hfirst := putTags_firstPart hcuts hfits true
      have hlast := putTags_lastPart hcuts hfits true false
      have hlist : (pool.rewrite pool.index
          (pool.arena.memory.putParts info size true false)).enlist (info.block.skip size) =
          .ok listed := henlist
      have hmerge : listed.coalesce (info.block.skip size) =
          .ok (_, pool.rewrite index₂ memory₂) := hcoalesce
      simp only [Pool.splitTail, hheader, htag, Build.sub_eq_ok _ hle, hfirst, hlast, hlist, hmerge,
        ok_bind, pure_eq_ok, if_neg hsmall]
    · rintro offset word ⟨hmerge, -⟩
      have hloose := h₁.loose_of_reclaim rfl hmerge
      rw [← List.append_cons] at hloose
      exact hcuts.loose_of_parts hfits hloose

/-- A block in use between others is released and taken whole again. Index, tags and links are as
    before, so only the words that were its own links in between may differ. -/
theorem take_of_release (h : pool.Orderly (front ++ info :: rest) chains)
    (hallocated : info.allocated = true) (hlast : freeLast? front = none)
    (hfirst : freeFirst? rest = none) {freed after : Pool} {size : Nat} (hle : size ≤ info.size)
    (hsmall : info.size - size < smallestBlock)
    (hrelease : pool.release (pool.arena.address info.block) = .ok freed)
    (htake : freed.take info.block size = .ok after) :
    ∃ memory, after = pool.rewrite pool.index memory ∧
      pool.arena.memory.Rewrites memory fun offset _ => info.block.HasLinkAt offset := by
  obtain ⟨block, bytes, allocated⟩ := info
  obtain rfl : allocated = true := hallocated
  have hinfo : ⟨block, bytes, true⟩ ∈ front ++ ⟨block, bytes, true⟩ :: rest := by simp
  have hunlisted := h.represents.not_listed hinfo rfl
  obtain ⟨index₁, memory₁, hrelease₁, h₁, -, hchange₁⟩ := h.release rfl
  rw [hrelease] at hrelease₁
  cases hrelease₁
  rw [Chains.mergeAt_alone _ hlast hfirst, mergeAt_alone rfl hlast hfirst] at h₁
  obtain ⟨index₂, memory₂, htake₂, h₂, -, hchange₂⟩ :=
    h₁.represents.take_whole (Chains.mem_push.2 (.inl ⟨rfl, rfl⟩)) hle hsmall
  rw [htake] at htake₂
  cases htake₂
  rw [Chains.without_push hunlisted] at h₂
  have hlink : ∀ offset, (chains.push (SizeClass.ofSize bytes) block).HasLinkAt offset →
      chains.HasLinkAt offset ∨ block.HasLinkAt offset := by
    rintro offset ⟨sizeClass, other, hother, hlink⟩
    rcases Chains.mem_push.1 hother with ⟨-, rfl⟩ | hother
    · exact .inr hlink
    · exact .inl ⟨sizeClass, other, hother, hlink⟩
  have hparts : partsAt front ⟨block, bytes, false⟩ rest = [⟨block, bytes, false⟩] := by
    rw [partsAt, hlast, hfirst]
    rfl
  have hchange : pool.arena.memory.Rewrites memory₂ fun offset _ =>
      (chains.HasLinkAt offset ∨ ∃ x ∈ front ++ ⟨block, bytes, true⟩ :: rest, x.HasTagAt offset) ∨
        block.HasLinkAt offset := by
    refine (hchange₁.mono ?_).trans (hchange₂.mono ?_)
    · rintro offset word ⟨hplace | ⟨x, hx, htag⟩, -⟩
      · exact (hlink offset hplace).imp_left .inl
      · rw [hparts, List.mem_singleton] at hx
        subst hx
        exact .inl (.inr ⟨_, hinfo, htag⟩)
    · rintro offset word (htag | ⟨hplace, -⟩)
      · exact .inl (.inr ⟨_, hinfo, htag⟩)
      · exact (hlink offset hplace).imp_left .inl
  obtain ⟨rfl, hkept⟩ := h.represents.restored h₂ hchange
  exact ⟨memory₂, rfl, hkept⟩

end Orderly

end BoundaryTag.Pool
