import BoundaryTag.Proofs.Audit.Report
import BoundaryTag.Proofs.Pool.Walk
import Mathlib.Data.Finset.Card

namespace BoundaryTag

/-- Every free block is in one list and in no other, and the lists name nothing else. -/
structure Agree (blocks : List BlockInfo) (chains : Chains) : Prop where
  listed : ∀ info ∈ vacant blocks, ∃! sizeClass, info.block ∈ chains sizeClass
  vacant : ∀ sizeClass, ∀ block ∈ chains sizeClass, ∃ info ∈ vacant blocks, info.block = block

/-- The members of lists that are no free blocks. -/
def strays (blocks : List BlockInfo) (chains : Chains) : List Block :=
  chains.members.filter (· ∉ (vacant blocks).map BlockInfo.block)

/-- The free blocks that are in no list. -/
def missing (blocks : List BlockInfo) (chains : Chains) : List Block :=
  ((vacant blocks).map BlockInfo.block).filter (· ∉ chains.members)

/-- The walk over the blocks finds `blocks`, and the walks along the lists find `chains`. -/
structure Pool.Shows (pool : Pool) (blocks : List BlockInfo) (chains : Chains) : Prop where
  blocks_eq : pool.blocks = .ok blocks
  list_eq : ∀ (sizeClass : SizeClass) limit,
    pool.arena.listFrom limit (pool.index.head sizeClass) = .ok ((chains sizeClass).take limit)

/-- What is known of lists that are as long as there are free blocks. A member is a free block of
    the class, or it lies inside a block. No member is listed twice, and as many are no free blocks
    as free blocks are missing. -/
structure Reconciled (blocks : List BlockInfo) (chains : Chains) : Prop where
  nodup : chains.members.Nodup
  member : ∀ sizeClass, ∀ block ∈ chains sizeClass,
    (∃ info ∈ vacant blocks, info.block = block ∧ SizeClass.ofSize info.size = sizeClass) ∨
      ∃ info ∈ blocks, info.block.offset < block.offset ∧ block.offset + 16 ≤ info.stop
  length_eq : (strays blocks chains).length = (missing blocks chains).length
  agree_iff : Agree blocks chains ↔
    ∀ sizeClass, ∀ block ∈ chains sizeClass, ∃ info ∈ blocks, info.block = block

/-- Of two lists without repetitions and of the same length, each lacks as much of the other. -/
theorem length_filter_not_mem_comm {α : Type} [DecidableEq α] {first second : List α}
    (hfirst : first.Nodup) (hsecond : second.Nodup) (hlength : first.length = second.length) :
    (first.filter (· ∉ second)).length = (second.filter (· ∉ first)).length := by
  have hcard : first.toFinset.card = second.toFinset.card := by
    rw [List.toFinset_card_of_nodup hfirst, List.toFinset_card_of_nodup hsecond, hlength]
  have hdiff : ∀ l m : List α, l.Nodup →
      (l.filter (· ∉ m)).length = (l.toFinset \ m.toFinset).card := by
    intro l m hl
    rw [← List.toFinset_card_of_nodup (hl.filter _)]
    congr 1
    ext x
    simp
  rw [hdiff _ _ hfirst, hdiff _ _ hsecond, Finset.card_sdiff_comm hcard]

section Consistent

variable {pool : Pool} {blocks : List BlockInfo} {chains : Chains} {sizeClass : SizeClass}
  {block : Block} {a : Arena}

theorem Arena.Regular.leads (h : a.Regular blocks) (hplaced : a.WellPlaced) : a.Leads blocks where
  tiles := h.blocks.tiles
  short := hplaced.short
  header info hinfo := by
    have hlies := h.blocks.tiles.liesIn rfl hinfo
    have hlow := hlies.start_le
    have hsize := hlies.size_ge
    have hstop := hlies.stop_le
    have hmarks := h.blocks.marked info hinfo
    unfold BlockInfo.stop at hstop
    exact ⟨_, header_eq_headerAt hlies.aligned (by omega) (by omega), hmarks.size_eq,
      hmarks.allocated_eq⟩
  front := by
    have hlen := hplaced.len_ge
    refine ⟨_, header_eq_headerAt (by decide) (by decide) (by change 16 ≤ a.len; omega), ?_⟩
    rw [h.has_prologue.headerAt_eq rfl]
    decide
  last block hblock := by
    have hlen := hplaced.len_ge
    have hmod := hplaced.len_mod
    exact ⟨_, header_eq_headerAt (by omega) (by omega) (by omega),
      ((hasEpilogue_iff hblock).1 h.has_epilogue).1⟩

namespace Pool.Consistent

theorem shows (h : pool.Consistent blocks chains) (hplaced : pool.arena.WellPlaced) :
    pool.Shows blocks chains where
  blocks_eq := blocks_eq_of_leads (h.regular.leads hplaced)
  list_eq sizeClass limit := (h.lists sizeClass).listFrom_eq limit

/-- A block has one class, the class of the size in its header. -/
theorem class_eq (h : pool.Consistent blocks chains) (hmem : block ∈ chains sizeClass) :
    SizeClass.ofSize (pool.arena.memory.headerAt block).size = sizeClass := by
  obtain ⟨_, hadmits⟩ := (h.lists sizeClass).exists_admits hmem
  exact hadmits.class_eq

theorem nodup_members (h : pool.Consistent blocks chains) : chains.members.Nodup :=
  Chains.nodup_members (fun sizeClass => (h.lists sizeClass).nodup) fun hblock hother =>
    (h.class_eq hblock).symm.trans (h.class_eq hother)

/-- A member at which a block starts is that block, free and of the class of the list. -/
theorem vacant_of_mem (h : pool.Consistent blocks chains) {info : BlockInfo}
    (hinfo : info ∈ blocks) (hmem : info.block ∈ chains sizeClass) :
    info ∈ vacant blocks ∧ SizeClass.ofSize info.size = sizeClass := by
  obtain ⟨_, hadmits⟩ := (h.lists sizeClass).exists_admits hmem
  have hmarks := h.regular.blocks.marked info hinfo
  refine ⟨mem_vacant.2 ⟨hinfo, ?_⟩, ?_⟩
  · rw [← hmarks.allocated_eq, hadmits.free]
  · rw [← hmarks.size_eq, hadmits.class_eq]

/-- A member lies in a block: it is not the prologue, which is in use, and every other place is in a
    block. -/
theorem exists_at (h : pool.Consistent blocks chains) (hplaced : pool.arena.WellPlaced)
    (hmem : block ∈ chains sizeClass) : ∃ info ∈ blocks,
      info.block = block ∨ info.block.offset < block.offset ∧ block.offset + 16 ≤ info.stop := by
  obtain ⟨_, hadmits⟩ := (h.lists sizeClass).exists_admits hmem
  obtain ⟨haligned, hlow, hstop⟩ := hplaced.followable_iff.1 hadmits.followable
  have hfront : block.offset ≠ 16 := by
    intro hoffset
    have hfree := hadmits.free
    rw [h.regular.has_prologue.headerAt_eq hoffset] at hfree
    exact absurd hfree (by decide)
  have htiles := h.regular.blocks.tiles
  have hbehind : 32 ≤ block.offset := by omega
  have hbefore : block.offset < pool.arena.len := by omega
  obtain ⟨info, hinfo, hstart, hinside⟩ := htiles.exists_at hbehind hbefore
  have hlies := htiles.liesIn rfl hinfo
  have hinfoAligned := hlies.aligned
  have hmod := hlies.size_mod
  refine ⟨info, hinfo, ?_⟩
  rcases Nat.eq_or_lt_of_le hstart with heq | hlt
  · exact .inl (Block.ext heq)
  · refine .inr ⟨hlt, ?_⟩
    simp only [BlockInfo.stop] at hinside ⊢
    omega

/-- As many members are no free blocks as free blocks are in no list. -/
theorem length_strays (h : pool.Consistent blocks chains) :
    (strays blocks chains).length = (missing blocks chains).length := by
  have hvacant : ((vacant blocks).map BlockInfo.block).Nodup :=
    h.regular.blocks.tiles.nodup_map_block rfl List.filter_sublist
  refine length_filter_not_mem_comm h.nodup_members hvacant ?_
  rw [List.length_map]
  exact h.count_eq

theorem agree_iff (h : pool.Consistent blocks chains) : Agree blocks chains ↔
    ∀ sizeClass, ∀ block ∈ chains sizeClass, ∃ info ∈ blocks, info.block = block := by
  constructor
  · intro hagree sizeClass block hmem
    obtain ⟨info, hinfo, hblock⟩ := hagree.vacant sizeClass block hmem
    exact ⟨info, (mem_vacant.1 hinfo).1, hblock⟩
  · intro hstarts
    have hfree : ∀ sizeClass, ∀ block ∈ chains sizeClass,
        ∃ info ∈ BoundaryTag.vacant blocks, info.block = block := by
      intro sizeClass block hmem
      obtain ⟨info, hinfo, rfl⟩ := hstarts sizeClass block hmem
      exact ⟨info, (h.vacant_of_mem hinfo hmem).1, rfl⟩
    have hstrays : strays blocks chains = [] := by
      refine List.filter_eq_nil_iff.2 fun block hmem => ?_
      obtain ⟨sizeClass, hmem⟩ := Chains.mem_members.1 hmem
      simpa using hfree sizeClass block hmem
    have hmissing : missing blocks chains = [] := by
      rw [← List.length_eq_zero_iff, ← h.length_strays, hstrays, List.length_nil]
    refine ⟨fun info hinfo => ?_, hfree⟩
    have hlisted : info.block ∈ chains.members := by
      have := List.filter_eq_nil_iff.1 hmissing info.block (List.mem_map_of_mem hinfo)
      simpa using this
    obtain ⟨sizeClass, hmem⟩ := Chains.mem_members.1 hlisted
    exact ⟨sizeClass, hmem, fun other hother =>
      (h.class_eq hother).symm.trans (h.class_eq hmem)⟩

theorem reconciled (h : pool.Consistent blocks chains) (hplaced : pool.arena.WellPlaced) :
    Reconciled blocks chains where
  nodup := h.nodup_members
  member sizeClass block hmem := by
    obtain ⟨info, hinfo, rfl | hinside⟩ := h.exists_at hplaced hmem
    · obtain ⟨hvacant, hclass⟩ := h.vacant_of_mem hinfo hmem
      exact .inl ⟨info, hvacant, rfl, hclass⟩
    · exact .inr ⟨info, hinfo, hinside⟩
  length_eq := h.length_strays
  agree_iff := h.agree_iff

end Pool.Consistent

end Consistent

/-- Stray writes: each word goes to its offset. -/
def Heap.overwrite {ρ : Type} (heap : Heap ρ) (words : List (Nat × UInt64)) : Heap ρ :=
  { heap with pool.arena.memory :=
      words.foldl (fun m (offset, word) => m.store offset word) heap.pool.arena.memory }

/-- Calls that leave blocks of 64 bytes at 32 and at 224 free, and one of 128 bytes at 96 in use. -/
def decoyCalls : List Call :=
  [.allocate 40, .allocate 100, .allocate 40, .allocate 40, .release (some 65568),
    .release (some 65760)]

/-- Words that make 128, a place in the block at 96, look like a free block of 64 bytes, and put it
    behind the block at 224 in place of the one at 32. -/
def decoyWords : List (Nat × UInt64) := [(120, 64), (128, 224), (136, 0), (232, 128)]

/-- The audit reports nothing. The blocks are as the calls left them, and the list of those of 64
    bytes names 224 and 128. -/
def HidesDecoy (heap : BufferHeap) : Prop :=
  (Heap.audit.answerOn heap).map Report.isOk = some true ∧
    heap.pool.blocks.toOption.map
        (·.map fun info => (info.block.offset, info.size, info.allocated)) =
      some [(32, 64, false), (96, 128, true), (224, 64, false), (288, 64, true),
        (352, 3776, false)] ∧
    (heap.pool.arena.listFrom 3 (heap.pool.index.head (SizeClass.ofSize 64))).toOption.map
        (·.map Block.offset) = some [224, 128]

instance (heap : BufferHeap) : Decidable (HidesDecoy heap) := inferInstanceAs (Decidable (_ ∧ _))

theorem replay_decoyCalls : ∃ heap,
    replay .checked sampleRegion decoyCalls = some (heap, [65824, 65632]) ∧
      HidesDecoy (heap.overwrite decoyWords) := by
  have heval : (replay .checked sampleRegion decoyCalls).map (fun state =>
      (state.2, decide (HidesDecoy (state.1.overwrite decoyWords)))) =
      some ([65824, 65632], true) := by
    decide +kernel
  obtain ⟨heap, hreplay, hhides⟩ := exists_of_replay heval
  exact ⟨heap, hreplay, of_decide_eq_true hhides⟩

/-- After a clean audit of a heap with any words and heads, the lists name no place twice. What they
    name are free blocks, each in the class of its size, and places inside blocks. There are as many
    of these places as there are free blocks in no list; if there are none, lists and free blocks
    agree. -/
theorem reconciled_of_isOk_audit {ρ : Type} {heap after : Heap ρ}
    (h : heap.pool.arena.WellPlaced) {report : Report} {log log' : Array Event}
    (hrun : Heap.audit.runOn heap log = .ok (report, after) log') (hok : report.isOk = true) :
    ∃ blocks chains, heap.pool.Shows blocks chains ∧ Reconciled blocks chains := by
  obtain ⟨blocks, chains, hconsistent⟩ := Heap.consistent_of_audit h hrun hok
  exact ⟨blocks, chains, hconsistent.shows h, hconsistent.reconciled h⟩

theorem reconciled_decoyWords : ∃ heap,
    replay .checked sampleRegion decoyCalls = some (heap, [65824, 65632]) ∧
    (heap.overwrite decoyWords).pool.arena.WellPlaced ∧
    (Heap.audit.answerOn (heap.overwrite decoyWords)).map Report.isOk = some true ∧
    ∃ blocks chains, (heap.overwrite decoyWords).pool.Shows blocks chains ∧
      Reconciled blocks chains := by
  obtain ⟨heap, hreplay, haudit, -⟩ := replay_decoyCalls
  obtain ⟨report, hreport, hok⟩ := Option.map_eq_some_iff.1 haudit
  obtain ⟨after, log, hrun⟩ := HeapM.answerOn_eq_some.1 hreport
  have hplaced : (heap.overwrite decoyWords).pool.arena.WellPlaced :=
    (reachable_of_replay hreplay).wellPlaced _
  exact ⟨heap, hreplay, hplaced, haudit, reconciled_of_isOk_audit hplaced hrun hok⟩

/-- A clean audit of a heap that a caller wrote stray words to: the free block at 32 is in no list,
    and a list names 128, where no block starts. -/
theorem not_agree_decoyWords : ∃ heap,
    replay .checked sampleRegion decoyCalls = some (heap, [65824, 65632]) ∧
    (Heap.audit.answerOn (heap.overwrite decoyWords)).map Report.isOk = some true ∧
    ∃ blocks chains, (heap.overwrite decoyWords).pool.Shows blocks chains ∧
      (∃ info ∈ vacant blocks, ∀ sizeClass, info.block ∉ chains sizeClass) ∧
      ∃ sizeClass, ∃ block ∈ chains sizeClass, ∀ info ∈ blocks, info.block ≠ block := by
  obtain ⟨heap, hreplay, haudit, hblocks, hlist⟩ := replay_decoyCalls
  obtain ⟨report, hreport, hok⟩ := Option.map_eq_some_iff.1 haudit
  obtain ⟨after, log, hrun⟩ := HeapM.answerOn_eq_some.1 hreport
  have hplaced : (heap.overwrite decoyWords).pool.arena.WellPlaced :=
    (reachable_of_replay hreplay).wellPlaced _
  obtain ⟨blocks, chains, hconsistent⟩ := Heap.consistent_of_audit hplaced hrun hok
  have hshows := hconsistent.shows hplaced
  have hplaces : blocks.map (fun info => (info.block.offset, info.size, info.allocated)) =
      [(32, 64, false), (96, 128, true), (224, 64, false), (288, 64, true),
        (352, 3776, false)] := by
    simpa [hshows.blocks_eq, Except.toOption] using hblocks
  have hnamed : ((chains (.ofSize 64)).take 3).map Block.offset = [224, 128] := by
    simpa [hshows.list_eq, Except.toOption] using hlist
  have hmembers : (chains (.ofSize 64)).map Block.offset = [224, 128] := by
    have hlength := congrArg List.length hnamed
    rw [List.length_map, List.length_take, List.length_cons, List.length_singleton] at hlength
    rwa [List.take_of_length_le (by omega)] at hnamed
  refine ⟨heap, hreplay, haudit, blocks, chains, hshows, ?_, ?_⟩
  · obtain ⟨info, hinfo, hplace⟩ : ∃ info ∈ blocks,
        (info.block.offset, info.size, info.allocated) = (32, 64, false) :=
      List.mem_map.1 (by rw [hplaces]; decide)
    simp only [Prod.mk.injEq] at hplace
    obtain ⟨hoffset, hsize, hfree⟩ := hplace
    refine ⟨info, mem_vacant.2 ⟨hinfo, hfree⟩, fun sizeClass hmem => ?_⟩
    obtain rfl : SizeClass.ofSize 64 = sizeClass := by
      rw [← hsize]
      exact (hconsistent.vacant_of_mem hinfo hmem).2
    have hlisted := List.mem_map_of_mem (f := Block.offset) hmem
    rw [hmembers, hoffset] at hlisted
    exact absurd hlisted (by decide)
  · obtain ⟨block, hmem, hoffset⟩ : ∃ block ∈ chains (.ofSize 64), block.offset = 128 :=
      List.mem_map.1 (by rw [hmembers]; decide)
    refine ⟨_, block, hmem, ?_⟩
    rintro info hinfo rfl
    have hplace := List.mem_map_of_mem
      (f := fun info : BlockInfo => (info.block.offset, info.size, info.allocated)) hinfo
    rw [hplaces] at hplace
    simp [hoffset] at hplace

end BoundaryTag
