import BoundaryTag.Pool.Blocks
import BoundaryTag.Proofs.Audit.Lists
import BoundaryTag.Proofs.Audit.Race

namespace BoundaryTag

namespace Arena

/-- The walk along a list goes on until the list ends or a link may not be followed. -/
inductive Walks (a : Arena) (sizeClass : SizeClass) :
    (prev cursor : Option Block) → ListSurvey → Prop where
  | ended {prev : Option Block} : a.Walks sizeClass prev none {}
  | lost {prev : Option Block} {block : Block} (hlost : ¬ a.Followable block) :
    a.Walks sizeClass prev (some block) { violations := [.outOfBounds block] }
  | next {prev : Option Block} {block : Block} {violations : List Violation} {link : Link}
    {rest : ListSurvey} (hblock : a.Followable block)
    (hinspect : a.inspectListed sizeClass prev block = .ok violations)
    (hlink : a.link block = .ok link) (hrest : a.Walks sizeClass (some block) link.next rest) :
    a.Walks sizeClass prev (some block) (.append { listed := 1, violations } rest)

/-- The block at which an iteration stands, if it has not come to its end. -/
def infoAt (a : Arena) (block : Block) : Except Fault (Option BlockInfo) := do
  let stop ← a.build.add (← block.headerOffset a.build) wordBytes
  if a.len < stop then
    return none
  let tag ← a.header block
  return if tag.size = 0 then none else some ⟨block, tag.size, tag.allocated⟩

/-- The blocks that an iteration yields from `block` on, up to its end. -/
inductive Yields (a : Arena) : Block → List BlockInfo → Prop where
  | ended {block : Block} (hinfo : a.infoAt block = .ok none) : a.Yields block []
  | next {block : Block} {info : BlockInfo} {rest : List BlockInfo}
    (hinfo : a.infoAt block = .ok (some info)) (hrest : a.Yields (block.skip info.size) rest) :
    a.Yields block (info :: rest)

theorem infoAt_outside {a : Arena} {block : Block} (hlow : 16 ≤ block.offset)
    (hout : a.len < block.offset) : a.infoAt block = .ok none := by
  have hlt := block.offset_lt
  rw [infoAt, Block.headerOffset_eq_ok _ (by omega), ok_bind, wordBytes,
    Build.add_eq_ok _ (by omega), ok_bind, if_pos (by omega)]
  rfl

namespace WellPlaced

variable {a : Arena} {cursor : Option Block} {block : Block}

/-- The walk along a list that ends comes to an end, with what the bounded walk finds. -/
theorem walks_spec (h : a.WellPlaced) (sizeClass : SizeClass) {steps : Nat}
    (hend : a.reach cursor steps = none) (prev : Option Block) :
    ∃ found, a.surveyList sizeClass steps prev cursor = .ok found ∧
      a.Walks sizeClass prev cursor found := by
  induction steps generalizing prev cursor with
  | zero =>
    obtain rfl : cursor = none := hend
    exact ⟨_, rfl, .ended⟩
  | succ steps ih =>
    cases cursor with
    | none => exact ⟨_, rfl, .ended⟩
    | some block =>
      by_cases hblock : a.Followable block
      · obtain ⟨violations, hinspect, -⟩ := h.inspectListed_spec hblock sizeClass prev
        have hlink := hblock.link_eq
        rw [reach_of_followable hblock] at hend
        obtain ⟨found, hsurvey, hwalks⟩ := ih hend (some block)
        refine ⟨_, ?_, .next hblock hinspect hlink hwalks⟩
        rw [surveyList, if_neg (not_not_intro hblock), hinspect, ok_bind, hlink, ok_bind, hsurvey]
        rfl
      · refine ⟨_, ?_, .lost hblock⟩
        rw [surveyList, if_pos hblock]
        rfl

/-- An iteration that stands in the arena reads the header there. -/
theorem infoAt_eq (h : a.WellPlaced) (haligned : block.offset % 16 = 0)
    (hlow : 16 ≤ block.offset) (hle : block.offset ≤ a.len) :
    a.infoAt block = .ok (if (a.memory.headerAt block).size = 0 then none
      else some ⟨block, (a.memory.headerAt block).size, (a.memory.headerAt block).allocated⟩) := by
  have hshort := h.short
  rw [infoAt, Block.headerOffset_eq_ok _ (by omega), ok_bind, wordBytes,
    Build.add_eq_ok _ (by omega), ok_bind, if_neg (by omega),
    header_eq_headerAt haligned hlow hle]
  rfl

/-- An iteration over any words comes to an end, and yields its blocks in the order of their
    offsets. -/
theorem yields_spec (h : a.WellPlaced) (block : Block) (hlow : 16 ≤ block.offset)
    (hplace : block.offset % 16 = 0 ∨ a.len < block.offset) :
    ∃ infos, a.blocksFrom block = .ok infos ∧ a.Yields block infos ∧
      (∀ info ∈ infos, block.offset ≤ info.block.offset) ∧
      infos.Pairwise fun x y => x.block.offset < y.block.offset := by
  have hshort := h.short
  have hmod := h.len_mod
  have hword : UInt64.size % 16 = 0 := by decide
  induction hroom : UInt64.size - block.offset using Nat.strong_induction_on
    generalizing block with
  | h room ih =>
    have hlt := block.offset_lt
    have hstop : a.build.add (block.offset - 8) 8 = .ok (block.offset - 8 + 8) :=
      Build.add_eq_ok _ (by omega)
    by_cases hout : a.len < block.offset
    · refine ⟨[], ?_, .ended (infoAt_outside hlow hout), by simp, .nil⟩
      rw [blocksFrom, Block.headerOffset_eq_ok _ (by omega), ok_bind, wordBytes, hstop, ok_bind,
        if_pos (by omega), pure_eq_ok]
    · have haligned := hplace.resolve_right hout
      have hheader := header_eq_headerAt haligned hlow (Nat.le_of_not_lt hout)
      have hinfo := h.infoAt_eq haligned hlow (Nat.le_of_not_lt hout)
      by_cases hzero : (a.memory.headerAt block).size = 0
      · rw [if_pos hzero] at hinfo
        refine ⟨[], ?_, .ended hinfo, by simp, .nil⟩
        rw [blocksFrom, Block.headerOffset_eq_ok _ (by omega), ok_bind, wordBytes, hstop, ok_bind,
          if_neg (by omega), hheader, ok_bind, if_pos hzero, pure_eq_ok]
      · rw [if_neg hzero] at hinfo
        have hsize := (a.memory.headerAt block).size_mod
        have hskip : (block.skip (a.memory.headerAt block).size).offset =
            min (block.offset + (a.memory.headerAt block).size) (UInt64.size - 1) := rfl
        have hnext : block.offset < (block.skip (a.memory.headerAt block).size).offset := by
          omega
        obtain ⟨rest, hblocks, hyields, hbehind, hincreasing⟩ := ih _ (by omega)
          (block.skip (a.memory.headerAt block).size) (by omega) (by omega) rfl
        have hlater : ∀ info ∈ rest, block.offset < info.block.offset := fun info hmem =>
          hnext.trans_le (hbehind info hmem)
        refine ⟨_, ?_, .next hinfo hyields, ?_, List.pairwise_cons.2 ⟨hlater, hincreasing⟩⟩
        · rw [blocksFrom, Block.headerOffset_eq_ok _ (by omega), ok_bind, wordBytes, hstop,
            ok_bind, if_neg (by omega), hheader, ok_bind, if_neg hzero, if_pos hnext, hblocks]
          rfl
        · exact List.forall_mem_cons.2 ⟨Nat.le_refl _, fun info hmem => (hlater info hmem).le⟩

end WellPlaced

end Arena

namespace Pool

variable {pool : Pool}

/-- The loops over the list of one class: it is walked if it ends. -/
inductive WalksClass (pool : Pool) (sizeClass : SizeClass) : ListSurvey → Prop where
  | endless
    (hrace : pool.arena.Races (pool.index.head sizeClass) (pool.index.head sizeClass) true) :
    pool.WalksClass sizeClass { violations := [.listCycle sizeClass] }
  | ends {found : ListSurvey}
    (hrace : pool.arena.Races (pool.index.head sizeClass) (pool.index.head sizeClass) false)
    (hwalk : pool.arena.Walks sizeClass none (pool.index.head sizeClass) found) :
    pool.WalksClass sizeClass found

/-- The loop of an iteration over all blocks. -/
def YieldsBlocks (pool : Pool) (infos : List BlockInfo) : Prop :=
  ∃ first, pool.arena.successor prologue = .ok first ∧ pool.arena.Yields first infos

/-- The loops over the list of a class come to an end, whatever the heads and the links are. -/
theorem walksClass_spec (h : pool.arena.WellPlaced) (sizeClass : SizeClass) :
    ∃ found, pool.surveyClass sizeClass = .ok found ∧ pool.WalksClass sizeClass found := by
  obtain ⟨answer, hendless, hanswer⟩ := pool.arena.endless_spec (pool.index.head sizeClass)
  obtain ⟨met, hraces, hmet⟩ := pool.arena.races_spec (pool.index.head sizeClass)
  obtain rfl : met = answer := by rw [Bool.eq_iff_iff, hmet, hanswer]
  simp only [surveyClass, hendless, ok_bind]
  cases met with
  | true => exact ⟨_, rfl, .endless hraces⟩
  | false =>
    obtain ⟨steps, hend⟩ : ∃ steps, pool.arena.reach (pool.index.head sizeClass) steps = none := by
      simpa using hanswer
    have hbound : pool.arena.reach (pool.index.head sizeClass) pool.arena.listBound = none :=
      Arena.reach_eq_none_of_le (Arena.reach_eq_none hend) (Nat.le_succ _)
    obtain ⟨found, hsurvey, hwalks⟩ := h.walks_spec sizeClass hbound none
    exact ⟨found, hsurvey, .ends hraces hwalks⟩

/-- An iteration over all blocks comes to an end, whatever the headers are. -/
theorem yieldsBlocks_spec (h : pool.arena.WellPlaced) :
    ∃ infos, pool.blocks = .ok infos ∧ pool.YieldsBlocks infos ∧
      infos.Pairwise fun x y => x.block.offset < y.block.offset := by
  have hlen := h.len_ge
  have hmod := h.len_mod
  have hshort := h.short
  have hheader : pool.arena.header prologue = .ok (pool.arena.memory.headerAt prologue) :=
    Arena.header_eq_headerAt (by decide) (by decide) (by change 16 ≤ pool.arena.len; omega)
  have hword : UInt64.size % 16 = 0 := by decide
  have hsize := (pool.arena.memory.headerAt prologue).size_mod
  have hfirst : pool.arena.successor prologue =
      .ok (prologue.skip (pool.arena.memory.headerAt prologue).size) := by
    rw [Arena.successor, hheader, ok_bind, pure_eq_ok]
  have hskip : (prologue.skip (pool.arena.memory.headerAt prologue).size).offset =
      min (16 + (pool.arena.memory.headerAt prologue).size) (UInt64.size - 1) := rfl
  obtain ⟨infos, hblocks, hyields, -, hincreasing⟩ :=
    h.yields_spec (prologue.skip (pool.arena.memory.headerAt prologue).size) (by omega) (by omega)
  refine ⟨infos, ?_, ⟨_, hfirst, hyields⟩, hincreasing⟩
  rw [blocks, hfirst, ok_bind, hblocks]

end Pool

end BoundaryTag
