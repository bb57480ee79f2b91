import BoundaryTag.Heap.Growth
import BoundaryTag.Proofs.Alignment
import BoundaryTag.Proofs.Heap.Sound
import BoundaryTag.Proofs.Pool.Growth

namespace BoundaryTag.Heap

variable {ρ : Type} [Region ρ] [GrowsInPlace ρ] {heap : Heap ρ} {blocks : List BlockInfo}
  {chains : Chains}

/-- The arena grows over the same memory by what the region grants. What the region becomes is what
    it becomes by the request. -/
theorem growBy_spec (heap : Heap ρ) (hbase : heap.pool.arena.base = Region.base heap.region)
    (hlen : heap.pool.arena.len = Region.len heap.region)
    (hspace : Region.Addressable heap.region) {bytes : Nat} (hbytes : 0 < bytes)
    (log : Array Event) :
    (∃ error after, (Region.grow heap.region bytes).1 = .error error ∧
      (growBy bytes).runOn heap log = .ok (.error (.region error), after) log ∧
      after.region = (Region.grow heap.region bytes).2 ∧ heap.Refuses after) ∨
    ∃ region, (∃ address, Region.grow heap.region bytes = (.ok address, region)) ∧
      (growBy bytes).runOn heap log =
        .ok (.ok heap.pool.arena.len, { region, pool := heap.pool.grown bytes }) log ∧
      Region.base region = Region.base heap.region ∧
      Region.len region = heap.pool.arena.len + bytes ∧
      heap.pool.arena.len + bytes < UInt64.size ∧
      heap.pool.arena.len + bytes ≤ GrowsInPlace.capacity heap.region ∧
      GrowsInPlace.capacity region = GrowsInPlace.capacity heap.region := by
  cases hgrow : Region.grow heap.region bytes with
  | mk answer region =>
    cases answer with
    | error e =>
      obtain ⟨hbase', hlen', hcapacity⟩ := GrowsInPlace.grow_error hgrow
      refine .inl ⟨e, { heap with region }, rfl, ?_, rfl, ⟨rfl, hbase', hlen', hcapacity⟩⟩
      simp [growBy, hgrow]
    | ok address =>
      obtain ⟨rfl, hbase', hlen', hshort, hroom, hcapacity⟩ := GrowsInPlace.grow_ok hgrow
      rw [hlen', ← hlen] at hshort hroom
      refine .inr ⟨region, ⟨_, rfl⟩, ?_, hbase', by rw [hlen', hlen], hshort, hroom, hcapacity⟩
      have hstart : Region.base heap.region + Region.len heap.region =
          heap.pool.arena.base + heap.pool.arena.len := by rw [hbase, hlen]
      have hsum : heap.pool.arena.build.add heap.pool.arena.base heap.pool.arena.len =
          .ok (heap.pool.arena.base + heap.pool.arena.len) := by
        rw [Region.Addressable, ← hbase] at hspace
        exact Build.add_eq_ok _ (by omega)
      have hset : heap.pool.arena.setLen (Region.len region) =
          .ok (heap.pool.grown bytes).arena := by
        rw [Arena.setLen, Build.require_eq_ok _ (by omega), hlen', ← hlen]
        rfl
      simp only [growBy, RequestM.runOn_bind, RequestM.runOn_get, RequestM.runOn_set,
        RequestM.runOn_liftM, RequestM.runOn_pure, hgrow, hstart, hsum, Build.require_eq_ok, hset]
      rfl

/-- The arena has grown by the free block `info` behind its old end, which was listed and then
    merged with a free block before it. -/
structure Appends (heap after : Heap ρ) (blocks : List BlockInfo) (chains : Chains)
    (info : BlockInfo) : Prop where
  free : info.allocated = false
  offset_eq : info.block.offset = heap.pool.arena.len
  len_eq : after.pool.arena.len = heap.pool.arena.len + info.size
  sound : after.Sound (mergeAt blocks info [])
    ((chains.push (SizeClass.ofSize info.size) info.block).mergeAt blocks info [])
  carries : heap.Carries after (held blocks) []

/-- The arena grows by a block for what was asked for, or the region refuses. -/
theorem Sound.extend_appends (h : heap.Sound blocks chains) {bytes : Nat} (hbytes : 32 ≤ bytes)
    (log : Array Event) :
    (∃ error after log', (extend bytes).runOn heap log = .ok (.error error, after) log' ∧
      heap.Refuses after ∧ ∀ size, roundUp? bytes alignment = some size →
        ∃ reason, (Region.grow heap.region size).1 = .error reason ∧ error = .region reason) ∨
    ∃ info after log', roundUp? bytes alignment = some info.size ∧
      (extend bytes).runOn heap log =
        .ok (.ok (BlockInfo.merge (freeLast? blocks) info none).block, after) log' ∧
      heap.Appends after blocks chains info := by
  cases hround : roundUp? bytes alignment with
  | none =>
    refine .inl ⟨.overflow, heap, log, ?_, .refl heap, nofun⟩
    simp only [extend, hround, RequestM.runOn_throw]
  | some size =>
    obtain ⟨-, hmod, hlow, -⟩ := roundUp?_spec hround
    have hlarge : 32 ≤ size := Nat.le_trans hbytes hlow
    have hspace : Region.Addressable heap.region := by
      rw [Region.Addressable, ← h.base_eq]
      exact h.addressable
    have hpositive : 0 < size := Nat.lt_of_lt_of_le (by decide) hlarge
    rcases growBy_spec heap h.base_eq h.len_eq hspace hpositive log with
      ⟨error, after, hanswer, hgrow, -, hrefuses⟩ |
      ⟨region, -, hgrow, hbase, hlen, hshort, hroom, hcapacity⟩
    · refine .inl ⟨.region error, after, log, ?_, hrefuses, ?_⟩
      · simp only [extend, hround, RequestM.runOn_bind, hgrow]
      · rintro _ ⟨⟩
        exact ⟨error, hanswer, rfl⟩
    · have hpos : 0 < heap.pool.arena.len := by
        have := h.orderly.represents.laid.len_ge
        omega
      obtain ⟨block, hstart, hoffset⟩ : ∃ block, Block.ofOffset? heap.pool.arena.len = some block ∧
          block.offset = heap.pool.arena.len :=
        ⟨_, Block.ofOffset?_eq_some hpos (Nat.lt_of_le_of_lt (Nat.le_add_right _ _) hshort), rfl⟩
      have hfree : (BlockInfo.mk block size false).allocated = false := rfl
      obtain ⟨listed, index, memory, happend, hcoalesce, hafter, hhonest, hchange⟩ :=
        h.orderly.append hfree hoffset hmod hlarge hshort
      have hlist : (heap.pool.grown size).append block size = .ok listed := happend
      have hmerge : listed.coalesce block = .ok (_, (heap.pool.grown size).rewrite index memory) :=
        hcoalesce
      refine .inr ⟨⟨block, size, false⟩, ⟨region, (heap.pool.grown size).rewrite index memory⟩,
        log.push (.extended size listed.arena.len), rfl, ?_, hfree, hoffset, rfl,
        ⟨hafter, ?_, ?_, h.base_mod, ?_, ?_⟩, rfl, rfl, Nat.le_add_right _ _, hcapacity, ?_,
        hhonest⟩
      · simp only [extend, hround, RequestM.runOn_bind, hgrow, hstart, RequestM.runOn_get,
          RequestM.runOn_liftM, hlist, RequestM.runOn_record, hmerge, RequestM.runOn_set,
          RequestM.runOn_pure]
      · exact h.base_eq.trans hbase.symm
      · exact hlen.symm
      · exact hcapacity ▸ hroom
      · exact hcapacity ▸ h.addressable
      · intro x hx
        refine h.orderly.represents.keeps hx hchange fun offset hcovers hend => ?_
        have hstop := (h.orderly.represents.laid.liesIn (mem_held.1 hx).1).stop_le
        have hhigh := hcovers.2
        omega

/-- The arena gets a free block at its end, merged with a free block before it. -/
theorem Sound.extend_spec (h : heap.Sound blocks chains) {bytes : Nat} (hbytes : 32 ≤ bytes)
    (log : Array Event) :
    (∃ error after log', (extend bytes).runOn heap log = .ok (.error error, after) log' ∧
      heap.Refuses after ∧ ∀ size, roundUp? bytes alignment = some size →
        ∃ reason, (Region.grow heap.region size).1 = .error reason ∧ error = .region reason) ∨
    ∃ size front info chains' after log', roundUp? bytes alignment = some size ∧
      (extend bytes).runOn heap log = .ok (.ok info.block, after) log' ∧
      after.Sound (front ++ [info]) chains' ∧ info.allocated = false ∧
      Lengthens heap.pool.arena.len size blocks (front ++ [info]) ∧
      after.pool.arena.len = heap.pool.arena.len + size ∧ bytes ≤ info.size ∧
      heap.Carries after (held blocks) [] := by
  refine (h.extend_appends hbytes log).imp_right ?_
  rintro ⟨info, after, log', hround, hrun, happends⟩
  obtain ⟨-, -, hlow, -⟩ := roundUp?_spec hround
  have hpositive : 0 < info.size := by omega
  have hlengthens := lengthens_mergeAt happends.free hpositive blocks
  have hsound := happends.sound
  rw [happends.offset_eq, mergeAt_nil] at hlengthens
  rw [mergeAt_nil] at hsound
  have hmerged := BlockInfo.size_le_merge (freeLast? blocks) info none
  exact ⟨info.size, _, _, _, after, log', hround, hrun, hsound, rfl, hlengthens, happends.len_eq,
    Nat.le_trans hlow hmerged, happends.carries⟩

/-- What a heap is set up from. -/
def empty (build : Build) (region : ρ) (memory : Memory) : Heap ρ :=
  { region, pool := { arena := { build, base := Region.base region, len := 0, memory } } }

/-- A heap that is set up is sound, whatever the memory held. It has blocks, none of them in use.
    Setting it up fails only if the region refuses to grow to the first block. -/
theorem setUp_spec {region : ρ} (build : Build) (memory : Memory) (hempty : Region.len region = 0)
    (hbase : Region.base region % 16 = 0) (hspace : Region.Addressable region)
    (log : Array Event) :
    ∃ answer after log', setUp.runOn (empty build region memory) log = .ok (answer, after) log' ∧
      (answer = .ok () → after.pool.arena.build = build ∧
        ∃ blocks chains, after.Sound blocks chains ∧ held blocks = [] ∧ blocks ≠ []) ∧
      (answer ≠ .ok () → Region.RefusesWithin region (frontBytes + growthUnit)) := by
  have hfront : 0 < frontBytes := by decide
  rcases growBy_spec (empty build region memory) rfl hempty.symm hspace hfront log with
    ⟨error, after, hanswer, hgrow, -⟩ |
    ⟨grown, ⟨address, hgrown⟩, hgrow, hbase', hlen', -, hroom, hcapacity⟩
  · refine ⟨.error (.region error), after, log, ?_, nofun,
      fun _ => ⟨region, .refl, frontBytes, ?_, error, hanswer⟩⟩
    · simp only [setUp, RequestM.runOn_bind, hgrow]
    · rw [hempty]
      decide
  · obtain ⟨laid, hlayOut, horderly⟩ := Pool.layOut_eq build (Region.base region) memory
    have hlay : ((empty build region memory).pool.grown frontBytes).layOut
        (empty build region memory).pool.arena.len = .ok _ := hlayOut
    have hsound : Sound
        ⟨grown, { arena := { build, base := Region.base region, len := 32, memory := laid } }⟩
        [] (fun _ => []) := ⟨horderly, hbase'.symm, hlen'.symm, hbase, hcapacity ▸ hroom,
      hcapacity ▸ hspace⟩
    have hunit : 32 ≤ growthUnit := by decide
    rcases hsound.extend_spec hunit log with
      ⟨error, after, log', hextend, -, hrefused⟩ |
      ⟨size, front, info, chains, after, log', -, hextend, hafter, -, hlengthens, -, -, hcarries⟩
    · refine ⟨.error error, after, log', ?_, nofun,
        fun _ => ⟨grown, .of_grow .refl hgrown, growthUnit, ?_, ?_⟩⟩
      · simp only [setUp, RequestM.runOn_bind, hgrow, RequestM.runOn_get, RequestM.runOn_liftM,
          hlay, RequestM.runOn_set, hextend]
      · rw [hlen']
        exact Nat.le_refl _
      · obtain ⟨reason, hanswer, -⟩ := hrefused growthUnit (by decide)
        exact ⟨reason, hanswer⟩
    · have hinfo : info ∈ front ++ [info] := by simp
      obtain ⟨tag, hheader, -⟩ := hafter.orderly.represents.header_eq hinfo
      refine ⟨.ok (), after, log'.push (.ready tag.size), ?_,
        fun _ => ⟨hcarries.build_eq, _, chains, hafter, hlengthens.held_eq, by simp⟩, absurd rfl⟩
      simp only [setUp, RequestM.runOn_bind, hgrow, RequestM.runOn_get, RequestM.runOn_liftM,
        hlay, RequestM.runOn_set, hextend, hheader, RequestM.runOn_record]

omit [GrowsInPlace ρ] in
/-- Over an empty region at a multiple of 16, creating a heap is setting it up. -/
theorem runOn_create {build : Build} {region : ρ} {memory : Memory}
    (hstart : Region.isEmpty region ∧ isMultiple? (Region.base region) alignment = some true)
    {answer : Except HeapError Unit} {after : Heap ρ} {log log' : Array Event}
    (hrun : setUp.runOn (empty build region memory) log = .ok (answer, after) log') :
    (create build region memory).run log = .ok (answer.map fun _ => after) log' := by
  rw [create, if_pos hstart]
  have hrun : setUp.run.run { region, pool := { arena := _ } } log = .ok (answer, after) log' :=
    hrun
  change EStateM.bind _ _ _ = _
  simp only [EStateM.bind, hrun]
  rfl

omit [GrowsInPlace ρ] in
theorem runOn_create_refused {build : Build} {region : ρ}
    (hstart : ¬ (Region.isEmpty region ∧ isMultiple? (Region.base region) alignment = some true))
    (memory : Memory) (log : Array Event) :
    (create build region memory).run log = .ok (.error (.region .invalidArgument)) log := by
  rw [create, if_neg hstart]
  rfl

/-- Creating a heap does not fail. A heap that is created is sound. It has blocks, none of them in
    use. -/
theorem create_spec (build : Build) {region : ρ} (hspace : Region.Addressable region)
    (memory : Memory) (log : Array Event) :
    ∃ answer log', (create build region memory).run log = .ok answer log' ∧
      ∀ heap, answer = .ok heap → heap.pool.arena.build = build ∧
        ∃ blocks chains, heap.Sound blocks chains ∧ held blocks = [] ∧ blocks ≠ [] := by
  by_cases hstart : Region.isEmpty region ∧ isMultiple? (Region.base region) alignment = some true
  · obtain ⟨hempty, hbase⟩ := hstart
    have hlen : Region.len region = 0 := by simpa [Region.isEmpty] using hempty
    have hmod : Region.base region % 16 = 0 := by
      rw [isMultiple?_eq, if_pos (by decide)] at hbase
      simpa using hbase
    obtain ⟨answer, after, log', hrun, hsound, -⟩ := setUp_spec build memory hlen hmod hspace log
    refine ⟨_, log', runOn_create ⟨hempty, hbase⟩ hrun, fun heap hheap => ?_⟩
    cases answer with
    | error error => cases hheap
    | ok =>
      cases hheap
      exact hsound rfl
  · exact ⟨_, log, runOn_create_refused hstart memory log, nofun⟩

/-- Over an empty region that grants whatever fits, and has room for the first block, a heap is
    created. -/
theorem exists_create {σ : Type} [Region σ] [GrowsByLength σ] {region : σ} (build : Build)
    (hempty : Region.len region = 0) (hbase : Region.base region % 16 = 0)
    (hspace : Region.Addressable region) (hobliging : GrowsByLength.Obliging region)
    (hroom : frontBytes + growthUnit ≤ GrowsInPlace.capacity region) (memory : Memory)
    (log : Array Event) :
    ∃ heap log', (create build region memory).run log = .ok (.ok heap) log' := by
  have hstart : Region.isEmpty region ∧ isMultiple? (Region.base region) alignment = some true := by
    rw [Region.isEmpty, hempty, isMultiple?_eq, if_pos (by decide), alignment, hbase]
    exact ⟨rfl, rfl⟩
  obtain ⟨answer, after, log', hrun, -, hrefused⟩ :=
    setUp_spec build memory hempty hbase hspace log
  have hgrants : ¬ Region.RefusesWithin region (frontBytes + growthUnit) :=
    GrowsByLength.not_refusesWithin hobliging hroom (by decide)
  obtain rfl : answer = .ok () := by_contra fun hne => hgrants (hrefused hne)
  exact ⟨after, log', runOn_create hstart hrun⟩

end BoundaryTag.Heap
