import BoundaryTag.Audit.Survey
import BoundaryTag.Proofs.Pool.Tidy
import Mathlib.Tactic.MkIffOfInductiveProp

namespace BoundaryTag

/-- The word in place of a block's header. -/
def Memory.headerAt (m : Memory) (block : Block) : Tag := ⟨m.load (block.offset - 8)⟩

/-- A block's header says its size and its state, whatever its other low bits are, and the same word
    is its footer. -/
structure Memory.Marks (m : Memory) (info : BlockInfo) : Prop where
  size_eq : (m.headerAt info.block).size = info.size
  allocated_eq : (m.headerAt info.block).allocated = info.allocated
  footer_eq : m.load (info.stop - 16) = m.load (info.block.offset - 8)

namespace Arena

/-- An arena of any contents with room for the prologue and the epilogue. -/
structure WellPlaced (a : Arena) : Prop where
  base_mod : a.base % 16 = 0
  len_mod : a.len % 16 = 0
  len_ge : 32 ≤ a.len
  short : a.len < UInt64.size

/-- The words at both tags of the prologue are what they were set to. -/
def HasPrologue (a : Arena) : Prop :=
  a.memory.load 8 = (Tag.ofSize 16 true).raw ∧ a.memory.load 16 = (Tag.ofSize 16 true).raw

/-- The last word of the arena is the header of an allocated block of size zero. -/
def HasEpilogue (a : Arena) : Prop :=
  (Tag.mk (a.memory.load (a.len - 8))).size = 0 ∧
    (Tag.mk (a.memory.load (a.len - 8))).allocated = true

/-- From `start` to the end of the arena lie marked blocks, no two neighbours both free. -/
structure RegularFrom (a : Arena) (start : Nat) (infos : List BlockInfo) : Prop where
  tiles : Tiles start infos a.len
  marked : ∀ info ∈ infos, a.memory.Marks info
  settled : Settled infos

/-- What the walk asks of an arena. -/
structure Regular (a : Arena) (infos : List BlockInfo) : Prop where
  has_prologue : a.HasPrologue
  blocks : a.RegularFrom 32 infos
  has_epilogue : a.HasEpilogue

/-- What the walk asks of a block that ends in the arena, behind the block `before` if that one is
    free: that its tags agree, and that it is in use if the one before it is free. -/
@[mk_iff]
structure Passes (a : Arena) (block : Block) (before : Option Block) : Prop where
  footer_eq : a.memory.load (block.offset + (a.memory.headerAt block).size - 16) =
    a.memory.load (block.offset - 8)
  settled : before.isSome → (a.memory.headerAt block).allocated = true

variable {a : Arena} {start : Nat} {info : BlockInfo} {infos rest : List BlockInfo}

theorem regularFrom_nil : a.RegularFrom start [] ↔ start = a.len :=
  ⟨RegularFrom.tiles, fun h => ⟨h, nofun, .nil⟩⟩

theorem regularFrom_cons : a.RegularFrom start (info :: rest) ↔
    info.block.offset = start ∧ info.size % 16 = 0 ∧ 32 ≤ info.size ∧ a.memory.Marks info ∧
      (∀ next ∈ rest.head?, info.allocated = true ∨ next.allocated = true) ∧
      a.RegularFrom info.stop rest := by
  constructor
  · rintro ⟨⟨hstart, hmod, hsize, hrest⟩, hmarked, hsettled⟩
    obtain ⟨hnext, hsettled⟩ := List.isChain_cons.1 hsettled
    exact ⟨hstart, hmod, hsize, hmarked info List.mem_cons_self, hnext, hrest,
      fun other hother => hmarked other (List.mem_cons_of_mem _ hother), hsettled⟩
  · rintro ⟨hstart, hmod, hsize, hmarks, hnext, hrest, hmarked, hsettled⟩
    exact ⟨⟨hstart, hmod, hsize, hrest⟩, List.forall_mem_cons.2 ⟨hmarks, hmarked⟩,
      List.isChain_cons.2 ⟨hnext, hsettled⟩⟩

variable {block : Block} {before : Option Block}

theorem header_eq_headerAt (haligned : block.offset % 16 = 0) (hlow : 16 ≤ block.offset)
    (hle : block.offset ≤ a.len) : a.header block = .ok (a.memory.headerAt block) := by
  rw [header, Block.headerOffset_eq_ok _ (by omega), ok_bind,
    tagAt_eq (by omega) (by omega)]
  rfl

theorem HasPrologue.headerAt_eq (h : a.HasPrologue) (hfront : block.offset = 16) :
    a.memory.headerAt block = .ofSize 16 true := by
  rw [Memory.headerAt, hfront]
  exact congrArg Tag.mk h.1

theorem hasEpilogue_iff (hend : block.offset = a.len) : a.HasEpilogue ↔
    (a.memory.headerAt block).size = 0 ∧ (a.memory.headerAt block).allocated = true := by
  rw [HasEpilogue, Memory.headerAt, hend]

namespace WellPlaced

theorem holds_iff (h : a.WellPlaced) (hlow : 16 ≤ block.offset) (size : Nat) :
    a.Holds block size ↔ block.offset + size ≤ a.len := by
  have hshort := h.short
  simp only [Holds, tagBytes]
  omega

theorem inspect_spec (h : a.WellPlaced) (haligned : block.offset % 16 = 0)
    (hlow : 16 ≤ block.offset) (hstop : block.offset + (a.memory.headerAt block).size ≤ a.len)
    (before : Option Block) :
    ∃ violations, a.inspect block before = .ok violations ∧
      (violations = [] ↔ a.Passes block before) := by
  have hbase := h.base_mod
  have hshort := h.short
  have hmod := (a.memory.headerAt block).size_mod
  have haddress : a.address block % alignment = 0 := by
    simp only [address, alignment]
    omega
  rw [inspect, header_eq_headerAt haligned hlow (by omega), ok_bind,
    Block.footerOffset_eq_ok _ (by omega) (by omega), ok_bind, tagAt_eq (by omega) (by omega),
    ok_bind, if_pos haddress]
  refine ⟨_, rfl, ?_⟩
  have hfooter : Tag.mk (a.memory.load (block.offset + (a.memory.headerAt block).size - 16)) =
      a.memory.headerAt block ↔
      a.memory.load (block.offset + (a.memory.headerAt block).size - 16) =
        a.memory.load (block.offset - 8) := by
    rw [Memory.headerAt, Tag.mk.injEq]
  rw [passes_iff]
  cases before <;> simp [hfooter, Tag.free]

/-- The walk ends at a header of size zero. -/
theorem surveyFrom_end (h : a.WellPlaced) (haligned : block.offset % 16 = 0)
    (hlow : 16 ≤ block.offset) (hle : block.offset ≤ a.len)
    (hsize : (a.memory.headerAt block).size = 0) (before : Option Block) :
    ∃ violations, a.surveyFrom block before = .ok { violations, complete := true } ∧
      (violations = [] ↔
        (a.memory.headerAt block).allocated = true ∧ block.offset = a.len) := by
  have hlen := h.len_ge
  have hholds : a.Holds block 0 := (h.holds_iff hlow 0).2 hle
  have hlast : block.offset - 8 = a.len - 8 ↔ block.offset = a.len := by omega
  rw [surveyFrom, if_neg (not_not_intro hholds), header_eq_headerAt haligned hlow hle, ok_bind,
    if_pos hsize, inspectLast, header_eq_headerAt haligned hlow hle, ok_bind, wordBytes,
    Build.sub_eq_ok _ (by omega), ok_bind, Block.headerOffset_eq_ok _ (by omega), ok_bind]
  refine ⟨_, rfl, ?_⟩
  simp [hlast]

/-- The walk goes on behind a block that ends in the arena. -/
theorem surveyFrom_next (h : a.WellPlaced) (haligned : block.offset % 16 = 0)
    (hlow : 16 ≤ block.offset) (hsize : 32 ≤ (a.memory.headerAt block).size)
    (hstop : block.offset + (a.memory.headerAt block).size ≤ a.len) (before : Option Block) :
    ∃ violations, a.surveyFrom block before =
        (a.surveyFrom (block.skip (a.memory.headerAt block).size)
          (if (a.memory.headerAt block).free then some block else none)).map
            (·.cons (a.memory.headerAt block).free violations) ∧
      (violations = [] ↔ a.Passes block before) := by
  obtain ⟨violations, hinspect, hclean⟩ := h.inspect_spec haligned hlow hstop before
  have hle : block.offset ≤ a.len := by omega
  have hholds : a.Holds block 0 := (h.holds_iff hlow 0).2 hle
  refine ⟨violations, ?_, hclean⟩
  rw [surveyFrom, if_neg (not_not_intro hholds), header_eq_headerAt haligned hlow hle, ok_bind,
    if_neg (by omega), if_neg (by simp only [smallestBlock]; omega),
    if_pos ((h.holds_iff hlow _).2 hstop), hinspect, ok_bind]
  rfl

/-- The walk stops where a header does not say where to go on. -/
theorem surveyFrom_stuck (h : a.WellPlaced) (haligned : block.offset % 16 = 0)
    (hlow : 16 ≤ block.offset) (hle : block.offset ≤ a.len)
    (hsize : (a.memory.headerAt block).size ≠ 0)
    (hstuck : (a.memory.headerAt block).size < 32 ∨
      a.len < block.offset + (a.memory.headerAt block).size) (before : Option Block) :
    ∃ found, a.surveyFrom block before = .ok found ∧ found.violations ≠ [] := by
  have hholds : a.Holds block 0 := (h.holds_iff hlow 0).2 hle
  rw [surveyFrom, if_neg (not_not_intro hholds), header_eq_headerAt haligned hlow hle, ok_bind,
    if_neg hsize]
  by_cases hsmall : (a.memory.headerAt block).size < smallestBlock
  · rw [if_pos hsmall]
    exact ⟨_, rfl, List.cons_ne_nil _ _⟩
  · have houtside : ¬ a.Holds block (a.memory.headerAt block).size := by
      rw [h.holds_iff hlow]
      simp only [smallestBlock] at hsmall
      omega
    rw [if_neg hsmall, if_neg houtside]
    exact ⟨_, rfl, List.cons_ne_nil _ _⟩

/-- A walk over marked blocks finds nothing wrong, and counts them. -/
theorem surveyFrom_eq (h : a.WellPlaced) (hend : a.HasEpilogue)
    (hregular : a.RegularFrom block.offset infos) (haligned : block.offset % 16 = 0)
    (hlow : 16 ≤ block.offset)
    (hbefore : before.isSome → ∀ info ∈ infos.head?, info.allocated = true) :
    a.surveyFrom block before = .ok
      { blocks := infos.length, freeBlocks := (vacant infos).length, complete := true } := by
  induction infos generalizing block before with
  | nil =>
    have hstop := regularFrom_nil.1 hregular
    obtain ⟨hzero, hallocated⟩ := (hasEpilogue_iff hstop).1 hend
    obtain ⟨violations, hsurvey, hclean⟩ := h.surveyFrom_end haligned hlow
      (Nat.le_of_eq hstop) hzero before
    rw [hsurvey, hclean.2 ⟨hallocated, hstop⟩]
    rfl
  | cons info rest ih =>
    obtain ⟨hblock, hmod, hsize, hmarks, hnext, hrest⟩ := regularFrom_cons.1 hregular
    obtain rfl : info.block = block := Block.ext hblock
    have hstop := hrest.tiles.le
    have hheader := hmarks.size_eq
    unfold BlockInfo.stop at hstop
    obtain ⟨violations, hsurvey, hclean⟩ := h.surveyFrom_next haligned hlow (by omega)
      (by omega) before
    have hviolations : violations = [] := by
      refine hclean.2 ⟨?_, fun hsome => ?_⟩
      · rw [hheader]
        exact hmarks.footer_eq
      · rw [hmarks.allocated_eq]
        exact hbefore hsome info rfl
    have hskip : (info.block.skip info.size).offset = info.stop :=
      Block.offset_skip (by have := h.short; omega)
    have hcounted : a.surveyFrom (info.block.skip info.size)
        (if (a.memory.headerAt info.block).free then some info.block else none) = .ok
          { blocks := rest.length, freeBlocks := (vacant rest).length, complete := true } := by
      refine ih (hskip ▸ hrest) ?_ ?_ fun hsome next hmem => ?_
      · rw [hskip, BlockInfo.stop]
        omega
      · rw [hskip, BlockInfo.stop]
        omega
      · refine (hnext next hmem).resolve_left fun hallocated => ?_
        simp [Tag.free, hmarks.allocated_eq, hallocated] at hsome
    rw [hsurvey, hheader, hcounted, hviolations]
    cases hstate : info.allocated with
    | true =>
      rw [vacant_cons_of_allocated hstate]
      simp [Except.map, Survey.cons, Tag.free, hmarks.allocated_eq, hstate]
    | false =>
      rw [vacant_cons_of_free hstate]
      simp [Except.map, Survey.cons, Tag.free, hmarks.allocated_eq, hstate]

/-- The walk answers on any contents. If it finds nothing wrong, it was over marked blocks. -/
theorem surveyFrom_spec (h : a.WellPlaced) (block : Block) (before : Option Block)
    (haligned : block.offset % 16 = 0) (hlow : 16 ≤ block.offset) (hle : block.offset ≤ a.len) :
    ∃ found, a.surveyFrom block before = .ok found ∧
      (found.violations = [] → a.HasEpilogue ∧
        ∃ infos, a.RegularFrom block.offset infos ∧
          (before.isSome → ∀ info ∈ infos.head?, info.allocated = true)) := by
  have hshort := h.short
  -- Headers decide where the walk goes, so the induction is on what is left of the arena.
  induction hroom : a.len - block.offset using Nat.strong_induction_on
    generalizing block before with
  | h room ih =>
    by_cases hzero : (a.memory.headerAt block).size = 0
    · obtain ⟨violations, hsurvey, hclean⟩ := h.surveyFrom_end haligned hlow hle hzero before
      refine ⟨_, hsurvey, fun hnone => ?_⟩
      obtain ⟨hallocated, hstop⟩ := hclean.1 hnone
      exact ⟨(hasEpilogue_iff hstop).2 ⟨hzero, hallocated⟩, [], regularFrom_nil.2 hstop, nofun⟩
    · by_cases hfits : 32 ≤ (a.memory.headerAt block).size ∧
        block.offset + (a.memory.headerAt block).size ≤ a.len
      · obtain ⟨hsize, hstop⟩ := hfits
        have hmod := (a.memory.headerAt block).size_mod
        have hskip : (block.skip (a.memory.headerAt block).size).offset =
            block.offset + (a.memory.headerAt block).size :=
          Block.offset_skip (by omega)
        obtain ⟨violations, hsurvey, hclean⟩ := h.surveyFrom_next haligned hlow hsize hstop before
        obtain ⟨found, hrest, hfound⟩ := ih _ (by omega)
          (block.skip (a.memory.headerAt block).size)
          (if (a.memory.headerAt block).free then some block else none)
          (by omega) (by omega) (by omega) rfl
        rw [hrest] at hsurvey
        refine ⟨_, hsurvey, fun hnone => ?_⟩
        obtain ⟨hviolations, hnone⟩ := List.append_eq_nil_iff.1 hnone
        obtain ⟨hfooter, hallocated⟩ := hclean.1 hviolations
        obtain ⟨hend, infos, hregular, hnext⟩ := hfound hnone
        refine ⟨hend, ⟨block, (a.memory.headerAt block).size, (a.memory.headerAt block).allocated⟩
          :: infos, regularFrom_cons.2 ⟨rfl, hmod, hsize, ⟨rfl, rfl, hfooter⟩, ?_, ?_⟩, ?_⟩
        · intro next hmem
          cases hstate : (a.memory.headerAt block).allocated with
          | true => exact .inl rfl
          | false => exact .inr (hnext (by simp [Tag.free, hstate]) next hmem)
        · rw [hskip] at hregular
          exact hregular
        · rintro hsome _ ⟨⟩
          exact hallocated hsome
      · obtain ⟨found, hsurvey, hstuck⟩ := h.surveyFrom_stuck haligned hlow hle hzero
          (by omega) before
        exact ⟨found, hsurvey, fun hnone => absurd hnone hstuck⟩

/-- The walk over the whole arena starts behind the prologue. -/
theorem survey_eq (h : a.WellPlaced) (hprologue : a.HasPrologue) :
    a.survey = a.surveyFrom (prologue.skip tagBytes) none := by
  have hlen := h.len_ge
  have hheader : a.header prologue = .ok (.ofSize tagBytes true) := by
    rw [header_eq_headerAt (by decide) (by decide) (by change 16 ≤ a.len; omega),
      hprologue.headerAt_eq rfl, tagBytes]
  have hfooter : a.tagAt 16 = .ok (.ofSize tagBytes true) := by
    rw [tagAt_eq (by omega) (by omega), hprologue.2]
    rfl
  have hplace : prologue.footerOffset a.build tagBytes = .ok 16 :=
    Block.footerOffset_eq_ok _ (by decide) (by decide)
  have hsize : (Tag.ofSize tagBytes true).size = tagBytes := by decide
  rw [survey, hheader, ok_bind, hplace, ok_bind, hfooter, ok_bind, if_pos ⟨rfl, rfl⟩, successor,
    hheader, ok_bind, hsize, pure_eq_ok, ok_bind]

/-- Nothing is walked behind a damaged prologue. -/
theorem survey_damaged (h : a.WellPlaced) (hprologue : ¬ a.HasPrologue) :
    ∃ found, a.survey = .ok found ∧ found.violations ≠ [] := by
  have hlen := h.len_ge
  have hplace : prologue.footerOffset a.build tagBytes = .ok 16 :=
    Block.footerOffset_eq_ok _ (by decide) (by decide)
  have hdamaged : ¬ (a.memory.headerAt prologue = Tag.ofSize tagBytes true ∧
      Tag.mk (a.memory.load 16) = Tag.ofSize tagBytes true) := fun ⟨hheader, hfooter⟩ =>
    hprologue ⟨congrArg Tag.raw hheader, congrArg Tag.raw hfooter⟩
  rw [survey, header_eq_headerAt (by decide) (by decide) (by change 16 ≤ a.len; omega), ok_bind,
    hplace, ok_bind, tagAt_eq (by omega) (by omega), ok_bind, if_neg hdamaged]
  exact ⟨_, rfl, List.cons_ne_nil _ _⟩

/-- The walk over a regular arena finds nothing wrong, and counts its blocks. -/
theorem survey_of_regular (h : a.WellPlaced) (hregular : a.Regular infos) : a.survey = .ok
    { blocks := infos.length, freeBlocks := (vacant infos).length, complete := true } := by
  rw [h.survey_eq hregular.has_prologue]
  exact h.surveyFrom_eq hregular.has_epilogue hregular.blocks (by decide) (by decide) nofun

/-- The walk over the arena answers on any contents. It finds nothing wrong if and only if the arena
    is regular, and then it is complete and counts the free blocks. -/
theorem survey_spec (h : a.WellPlaced) :
    ∃ found, a.survey = .ok found ∧ (found.violations = [] ↔ ∃ infos, a.Regular infos) ∧
      ∀ infos, a.Regular infos → found.complete = true ∧
        found.freeBlocks = (vacant infos).length := by
  by_cases hprologue : a.HasPrologue
  · obtain ⟨found, hsurvey, hclean⟩ := h.surveyFrom_spec (prologue.skip tagBytes) none
      (by decide) (by decide) h.len_ge
    have hregular : ∀ infos, a.Regular infos → found =
        { blocks := infos.length, freeBlocks := (vacant infos).length, complete := true } := by
      intro infos hregular
      have heq := h.survey_of_regular hregular
      rw [h.survey_eq hprologue, hsurvey] at heq
      exact Except.ok.inj heq
    refine ⟨found, (h.survey_eq hprologue).trans hsurvey, ⟨fun hnone => ?_, ?_⟩, ?_⟩
    · obtain ⟨hend, infos, hblocks, -⟩ := hclean hnone
      exact ⟨infos, hprologue, hblocks, hend⟩
    · rintro ⟨infos, hinfos⟩
      rw [hregular infos hinfos]
    · intro infos hinfos
      rw [hregular infos hinfos]
      exact ⟨rfl, rfl⟩
  · obtain ⟨found, hsurvey, hdamaged⟩ := h.survey_damaged hprologue
    refine ⟨found, hsurvey, ⟨fun hnone => absurd hnone hdamaged, ?_⟩, fun infos hinfos => ?_⟩
    · rintro ⟨infos, hinfos⟩
      exact absurd hinfos.has_prologue hprologue
    · exact absurd hinfos.has_prologue hprologue

end WellPlaced

end Arena

end BoundaryTag
