import BoundaryTag.Proofs.Pool.Release

namespace BoundaryTag

/-- Writes the tags of the last block of an arena and the epilogue. -/
def Memory.putLast (m : Memory) (info : BlockInfo) : Memory :=
  (m.putTags info).store (info.stop - 8) Tag.epilogue.raw

namespace Memory

variable {info : BlockInfo} {len : Nat}

theorem rewrites_epilogue (m : Memory) (h : info.Fits len) :
    (m.putTags info).Rewrites (m.putLast info) fun offset _ => offset + 8 = info.stop := by
  have haligned := h.aligned
  have hmod := h.size_mod
  have hlow := h.offset_ge
  have hplace : (info.stop - 8) % 8 = 0 := by
    unfold BlockInfo.stop
    omega
  apply ((m.putTags info).rewrites_store hplace _).mono
  rintro offset word ⟨rfl, -⟩
  unfold BlockInfo.stop
  omega

theorem rewrites_putLast (m : Memory) (h : info.Fits len) :
    m.Rewrites (m.putLast info) fun offset _ => info.HasTagAt offset ∨ offset + 8 = info.stop :=
  ((m.rewrites_putTags h).mono fun _ _ htag => .inl htag.1).trans
    ((m.rewrites_epilogue h).mono fun _ _ hlast => .inr hlast)

theorem tagged_putLast (m : Memory) (h : info.Fits len) : (m.putLast info).Tagged info := by
  apply (m.tagged_putTags h).of_rewrites h (m.rewrites_epilogue h)
  intro offset htag word hlast
  have hsize := h.size_ge
  simp only [BlockInfo.HasTagAt, BlockInfo.stop] at htag hlast
  omega

theorem load_putLast (m : Memory) (h : info.Fits len) :
    (m.putLast info).load (info.stop - 8) = Tag.epilogue.raw := by
  have haligned := h.aligned
  have hmod := h.size_mod
  have hlow := h.offset_ge
  have hplace : (info.stop - 8) % 8 = 0 := by
    unfold BlockInfo.stop
    omega
  rw [putLast, load_store _ hplace hplace, if_pos rfl]

end Memory

/-- What becomes of the blocks of an arena that grew by `bytes` bytes, the first of them at `start`.
    A free block at its end gets longer, and behind a block in use there is a new one. -/
inductive Lengthens (start : Nat) : (bytes : Nat) → List BlockInfo → List BlockInfo → Prop
  | same {blocks : List BlockInfo} : Lengthens start 0 blocks blocks
  | longer {bytes : Nat} {front : List BlockInfo} {last : BlockInfo} :
    0 < bytes → last.allocated = false →
    Lengthens start bytes (front ++ [last]) (front ++ [{ last with size := last.size + bytes }])
  | fresh {bytes : Nat} {blocks : List BlockInfo} {block : Block} :
    0 < bytes → block.offset = start → (∀ last ∈ blocks.getLast?, last.allocated = true) →
    Lengthens start bytes blocks (blocks ++ [⟨block, bytes, false⟩])

theorem Lengthens.held_eq {start bytes : Nat} {blocks after : List BlockInfo}
    (h : Lengthens start bytes blocks after) : held after = held blocks := by
  cases h with
  | same => rfl
  | longer _ hfree => simp [held, hfree]
  | fresh =>
    rw [held_append, held_cons_of_free rfl, held_nil, List.append_nil]

theorem Lengthens.settled {start bytes : Nat} {blocks after : List BlockInfo}
    (h : Lengthens start bytes blocks after) (hsettled : Settled blocks) : Settled after := by
  cases h with
  | same => exact hsettled
  | longer _ hfree =>
    obtain ⟨hfront, hrest, hlast, -⟩ := settled_middle.1 hsettled
    exact settled_middle.2 ⟨hfront, hrest, hlast, nofun⟩
  | fresh _ _ hlast =>
    exact settled_middle.2 ⟨hsettled, .nil, fun x hx => .inl (hlast x hx), nofun⟩

/-- What an arena becomes by growing fills it. -/
theorem Lengthens.tiles {start stop bytes : Nat} {blocks after : List BlockInfo}
    (h : Lengthens stop bytes blocks after) (htiles : Tiles start blocks stop)
    (hmod : bytes % 16 = 0) (hge : bytes = 0 ∨ 32 ≤ bytes) : Tiles start after (stop + bytes) := by
  cases h with
  | same => exact htiles
  | @longer bytes front last _ _ =>
    obtain ⟨hfront, hlastMod, hlastGe, hstop⟩ := tiles_middle.1 htiles
    refine tiles_middle.2 ⟨hfront, ?_, Nat.le_trans hlastGe (Nat.le_add_right _ _), ?_⟩
    · rw [Nat.add_mod, hlastMod, hmod]
    · have hend : last.block.offset + last.size = stop := hstop
      rw [← hend, Nat.add_assoc]
      rfl
  | fresh hpositive hstart _ =>
    have hlarge := hge.resolve_left (Nat.ne_of_gt hpositive)
    refine tiles_append.2 ⟨stop, htiles, hstart, hmod, hlarge, ?_⟩
    rw [← hstart]
    rfl

/-- A new free block at the end is merged as it should. -/
theorem lengthens_mergeAt {info : BlockInfo} (hfree : info.allocated = false)
    (hsize : 0 < info.size) (blocks : List BlockInfo) :
    Lengthens info.block.offset info.size blocks (mergeAt blocks info []) := by
  rw [mergeAt_nil]
  have hsplit := trimLast_append blocks
  cases hlast : freeLast? blocks with
  | none =>
    have hall := freeLast?_eq_none_iff.1 hlast
    rw [trimLast_eq_self hall, BlockInfo.merge_none hfree]
    obtain ⟨block, size, allocated⟩ := info
    subst hfree
    exact .fresh hsize rfl hall
  | some last =>
    obtain ⟨block, size, allocated⟩ := last
    obtain rfl : allocated = false := (mem_freeLast?.1 hlast).2
    rw [hlast, Option.toList_some] at hsplit
    have hmerged : BlockInfo.merge (some ⟨block, size, false⟩) info none =
        ⟨block, size + info.size, false⟩ := by
      simp [BlockInfo.merge, Nat.add_comm]
    rw [hmerged]
    conv => arg 3; rw [← hsplit]
    exact .longer hsize rfl

namespace Pool

variable {pool : Pool} {blocks : List BlockInfo} {chains : Chains} {info : BlockInfo}

/-- Writing the tags of a block and closing the arena behind it. -/
theorem putTags_close_eq (pool : Pool) (h : info.Fits pool.arena.len) :
    pool.putTags info.block info.tag =
        .ok (pool.rewrite pool.index (pool.arena.memory.putTags info)) ∧
      (pool.rewrite pool.index (pool.arena.memory.putTags info)).close info.block =
        .ok (pool.rewrite pool.index (pool.arena.memory.putLast info)) := by
  have haligned := h.aligned
  have hmod := h.size_mod
  have hlow := h.offset_ge
  have hstop := h.stop_le
  have hshort := h.short
  have htagged := pool.arena.memory.tagged_putTags h
  refine ⟨pool.putTags_eq h, ?_⟩
  generalize hbefore : pool.rewrite pool.index (pool.arena.memory.putTags info) = before
  have hfits : info.Fits before.arena.len := by rw [← hbefore]; exact h
  have hheader : before.arena.header info.block = .ok info.tag :=
    Arena.header_eq hfits (by rw [← hbefore]; exact htagged)
  unfold BlockInfo.stop at hstop
  rw [Pool.close, Arena.successor, hheader, ok_bind, pure_eq_ok, ok_bind, h.size_tag,
    Block.headerOffset_eq_ok _ (by rw [h.offset_skip, BlockInfo.stop]; omega), ok_bind,
    h.offset_skip, Arena.putTag, Arena.store_eq_ok]
  · rw [← hbefore]
    rfl
  · unfold BlockInfo.stop
    omega
  · rw [← hbefore, BlockInfo.stop]
    change _ ≤ pool.arena.len
    omega

/-- The pool after the arena has grown over the same memory. -/
def grown (pool : Pool) (size : Nat) : Pool :=
  { pool with arena := { pool.arena with len := pool.arena.len + size } }

/-- The block that an arena gets by growing. -/
theorem Represents.fits_new (h : pool.Represents blocks chains)
    (hinfo : info.block.offset = pool.arena.len) (hmod : info.size % 16 = 0)
    (hge : 32 ≤ info.size) (hshort : pool.arena.len + info.size < UInt64.size) :
    info.Fits (pool.grown info.size).arena.len where
  aligned := hinfo ▸ h.laid.len_mod
  size_mod := hmod
  size_ge := Nat.le_trans (by decide) hge
  stop_le := by
    rw [BlockInfo.stop, hinfo]
    exact Nat.le_refl _
  short := hshort

/-- No list has a block that starts at the end of the arena. -/
theorem Represents.fresh_new (h : pool.Represents blocks chains) {block : Block}
    (hblock : block.offset = pool.arena.len) (sizeClass : SizeClass) :
    block ∉ chains sizeClass := by
  intro hmem
  obtain ⟨x, hx, rfl, -⟩ := h.listed hmem
  have hinside := h.laid.offset_lt hx
  omega

/-- Writing the tags of the last block over the old epilogue, and a new epilogue. -/
theorem Represents.putLast (h : pool.Represents blocks chains)
    (hinfo : info.block.offset = pool.arena.len) (hmod : info.size % 16 = 0)
    (hge : 32 ≤ info.size) (hshort : pool.arena.len + info.size < UInt64.size) :
    Represents ((pool.grown info.size).rewrite pool.index (pool.arena.memory.putLast info))
      (blocks ++ [info]) chains ∧
    pool.arena.memory.Rewrites (pool.arena.memory.putLast info)
      fun offset _ => pool.arena.len ≤ offset + 8 := by
  have hfits := h.fits_new hinfo hmod hge hshort
  have hlen := h.laid.len_ge
  have hstop : info.stop = pool.arena.len + info.size := by rw [BlockInfo.stop, hinfo]
  have hchange : pool.arena.memory.Rewrites (pool.arena.memory.putLast info)
      fun offset _ => pool.arena.len ≤ offset + 8 := by
    refine (Memory.rewrites_putLast _ hfits).mono fun offset word hplace => ?_
    simp only [BlockInfo.HasTagAt] at hplace
    omega
  refine ⟨⟨⟨?_, hshort, ?_, ?_, ?_⟩, ?_, ?_⟩, hchange⟩
  · exact tiles_append.2 ⟨_, h.laid.tiles, hinfo, hmod, hge, hstop⟩
  · intro x hx
    rcases List.mem_append.1 hx with hx | hx
    · apply (h.laid.tagged x hx).of_rewrites (h.laid.fits hx) hchange
      intro offset htag word hplace
      have hxstop := (h.laid.liesIn hx).stop_le
      have hcovers := ((h.laid.fits hx).covers_tag htag).2
      omega
    · rw [List.mem_singleton.1 hx]
      exact Memory.tagged_putLast _ hfits
  · apply h.laid.front.of_rewrites h.laid.fits_prologue hchange
    intro offset htag word hplace
    have hsmall := offset_lt_of_prologue_tag htag
    omega
  · have hlast := Memory.load_putLast pool.arena.memory hfits
    rw [hstop] at hlast
    exact hlast
  · apply h.threads.congr (Nat.le_add_right _ _) hshort
    intro offset haligned hlink
    refine hchange.load_eq haligned fun word hplace => ?_
    obtain ⟨x, hx, -, hholds⟩ := h.holds_link hlink
    have hxstop := (h.laid.liesIn hx).stop_le
    have hhigh := hholds.2
    omega
  · intro block sizeClass hblock
    obtain ⟨x, hx, hrest⟩ := h.listed hblock
    exact ⟨x, List.mem_append_left _ hx, hrest⟩

/-- The block over the new bytes of an arena is listed and merged with a free block before it. -/
theorem Orderly.append (h : pool.Orderly blocks chains) (hfree : info.allocated = false)
    (hinfo : info.block.offset = pool.arena.len) (hmod : info.size % 16 = 0)
    (hge : 32 ≤ info.size) (hshort : pool.arena.len + info.size < UInt64.size) :
    ∃ listed index memory, (pool.grown info.size).append info.block info.size = .ok listed ∧
      listed.coalesce info.block =
        .ok ((BlockInfo.merge (freeLast? blocks) info none).block,
          (pool.grown info.size).rewrite index memory) ∧
      Orderly ((pool.grown info.size).rewrite index memory) (mergeAt blocks info [])
        ((chains.push (SizeClass.ofSize info.size) info.block).mergeAt blocks info []) ∧
      pool.KeepsHonest ((pool.grown info.size).rewrite index memory) [] ∧
      pool.arena.memory.Rewrites memory fun offset _ =>
        Loose blocks offset ∨ pool.arena.len ≤ offset + 8 := by
  have hfits := h.represents.fits_new hinfo hmod hge hshort
  obtain ⟨h₁, hchange₁⟩ := h.represents.putLast hinfo hmod hge hshort
  have hfresh := h.represents.fresh_new hinfo
  have hlisted : ∀ x, x ∈ blocks ∨ x ∈ [] → x.allocated = false →
      x.block ∈ chains (SizeClass.ofSize x.size) := by
    rintro x (hx | hx) hxfree
    · exact h.tidy.listed x hx hxfree
    · cases hx
  have hhonest₁ : pool.KeepsHonest
      ((pool.grown info.size).rewrite pool.index (pool.arena.memory.putLast info)) [] := by
    refine keepsHonest_of_even h.represents.laid h₁.laid (fun x hx => ?_)
      (hchange₁.mono fun offset word hplace hinside => absurd hplace (Nat.not_le_of_lt hinside))
    rw [held_append]
    exact List.mem_append_left _ hx
  obtain ⟨listed, index₂, memory₂, henlist, hcoalesce, h₂, hhonest₂, hchange₂⟩ :=
    h₁.reclaim hfree hfresh hlisted h.tidy.settled .nil
  obtain ⟨hput, hclose⟩ := (pool.grown info.size).putTags_close_eq hfits
  refine ⟨listed, index₂, memory₂, ?_, hcoalesce, h₂,
    hhonest₁.trans hhonest₂ (Nat.le_add_right _ _), (hchange₁.mono ?_).trans (hchange₂.mono ?_)⟩
  · have htag : info.tag = .ofSize info.size false := by rw [BlockInfo.tag, hfree]
    rw [Pool.append, ← htag, hput, ok_bind, hclose, ok_bind]
    exact henlist
  · exact fun offset word hplace => .inr hplace
  · rintro offset word ⟨hmerge, -⟩
    obtain ⟨x, hx, hxfree, hcovers⟩ := h₁.loose_of_reclaim hfree hmerge
    rcases List.mem_append.1 hx with hx | hx
    · exact .inl ⟨x, hx, hxfree, hcovers⟩
    · rw [List.mem_singleton.1 hx] at hcovers
      exact .inr (hinfo ▸ hcovers.1)

/-- An arena of the first 32 bytes is laid out without any block between its ends. -/
theorem layOut_eq (build : Build) (base : Nat) (memory : Memory) :
    ∃ after, Pool.layOut { arena := { build, base, len := 32, memory } } 0 =
        .ok { arena := { build, base, len := 32, memory := after } } ∧
      Orderly { arena := { build, base, len := 32, memory := after } } [] fun _ => [] := by
  have hfits : prologueInfo.Fits 32 := ⟨rfl, rfl, Nat.le_refl _, Nat.le_refl _, by decide⟩
  obtain ⟨hput, hclose⟩ := Pool.putTags_close_eq
    { arena := { build, base, len := 32, memory := memory.store 0 0 } } hfits
  refine ⟨(memory.store 0 0).putLast prologueInfo, ?_, ⟨?_, nofun, .nil⟩⟩
  · have hword : 0 + 8 ≤ 32 := by decide
    rw [Pool.layOut, Arena.store_eq_ok _ rfl hword, ok_bind]
    change (Pool.putTags _ prologueInfo.block prologueInfo.tag >>= _) = _
    rw [hput, ok_bind]
    exact hclose
  · exact
      { laid :=
          { tiles := rfl
            short := hfits.short
            tagged := nofun
            front := Memory.tagged_putLast _ hfits
            last := Memory.load_putLast _ hfits }
        threads := FreeIndex.threads_empty hfits.short
        listed := nofun }

end Pool

end BoundaryTag
