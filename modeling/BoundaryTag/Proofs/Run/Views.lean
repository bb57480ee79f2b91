import BoundaryTag.Heap.Query
import BoundaryTag.Proofs.Audit.Orderly
import BoundaryTag.Proofs.Pool.Count

namespace BoundaryTag

section Views

variable {ρ : Type}

/-- What the blocks of a heap, its figures and its audit say of one another and of the addresses in
    use. None of the three changes the heap, and the audit has nothing to log. -/
structure Heap.Accounts (heap : Heap ρ) (live : List Nat) (blocks : List BlockInfo) (stats : Stats)
    (report : Report) : Prop where
  blocks_eq : ∀ log, Heap.blocks.runOn heap log = .ok (blocks, heap) log
  stats_eq : ∀ log, Heap.stats.runOn heap log = .ok (stats, heap) log
  audit_eq : ∀ log, Heap.audit.runOn heap log = .ok (report, heap) log
  live_nodup : live.Nodup
  live_perm : (heap.addresses (held blocks)).Perm live
  allocated_blocks : stats.allocatedBlocks = live.length
  arena_bytes : stats.arenaBytes = 32 + stats.allocatedBytes + stats.freeBytes
  largest_free : stats.largestFree = ((vacant blocks).map BlockInfo.size).max?.getD 0
  audit_blocks : report.blocks = stats.allocatedBlocks + stats.freeBlocks
  audit_free : report.freeBlocks = stats.freeBlocks
  audit_listed : report.listed = stats.freeBlocks
  audit_clean : report.violations = []

variable [Region ρ] [GrowsInPlace ρ] {build : Build} {region : ρ} {heap : Heap ρ}
  {live : List Nat} {blocks : List BlockInfo} {chains : Chains}

theorem Heap.Sound.stats_eq (h : heap.Sound blocks chains) (log : Array Event) :
    Heap.stats.runOn heap log =
      .ok (Stats.tally { arenaBytes := heap.pool.arena.len } blocks, heap) log := by
  simp only [Heap.stats, HeapM.runOn_bind, HeapM.runOn_get, HeapM.runOn_liftM,
    Pool.stats_eq h.orderly.represents.laid]

/-- An audit between operations counts the blocks and finds nothing wrong. -/
theorem Heap.Sound.audit_eq (h : heap.Sound blocks chains) (log : Array Event) :
    Heap.audit.runOn heap log =
      .ok (⟨blocks.length, (vacant blocks).length, chains.members.length, []⟩, heap) log := by
  have hplaced := h.wellPlaced heap.pool.arena.memory
  rw [Heap.runOn_audit_eq ((h.orderly.consistent hplaced).audit_eq hplaced)]
  simp

theorem Heap.Owns.accounts (h : heap.Owns live blocks chains) :
    ∃ stats report, heap.Accounts live blocks stats report := by
  have hlaid := h.sound.orderly.represents.laid
  have hconsistent := h.sound.orderly.consistent (h.sound.wellPlaced heap.pool.arena.memory)
  have hsum := hlaid.tiles.add_spannedBytes
  have hparts := spannedBytes_held_add_vacant blocks
  have hheld : (held blocks).length = live.length := by
    simpa [addresses] using h.perm.length_eq
  refine ⟨Stats.tally { arenaBytes := heap.pool.arena.len } blocks,
    ⟨blocks.length, (vacant blocks).length, chains.members.length, []⟩,
    fun log => ?_, h.sound.stats_eq, h.sound.audit_eq, h.nodup, h.perm, ?_, ?_, ?_, ?_, ?_, ?_,
    rfl⟩
  · simp only [Heap.blocks, HeapM.runOn_bind, HeapM.runOn_get, HeapM.runOn_liftM,
      Pool.blocks_eq hlaid]
  · simp [Stats.tally, hheld]
  · simp only [Stats.tally, frontBytes] at hsum ⊢
    omega
  · simp [Stats.tally, largestSize]
  · simp [Stats.tally, length_held_add_vacant]
  · simp [Stats.tally]
  · simp [Stats.tally, hconsistent.count_eq]

/-- The views of a heap agree after any run, whatever in it was refused, and its blocks in use are
    those at the addresses that the run left in use. -/
theorem accounts_of_reachable (h : Reachable build region heap live) :
    ∃ blocks stats report, heap.Accounts live blocks stats report := by
  obtain ⟨blocks, chains, howns⟩ := h.owns
  exact ⟨blocks, howns.accounts⟩

theorem accounts_after_sampleCalls : ∃ heap,
    replay .checked sampleRegion sampleCalls = some (heap, [66112, 66048, 65696]) ∧
      ∃ blocks stats report, heap.Accounts [66112, 66048, 65696] blocks stats report := by
  obtain ⟨heap, hreplay⟩ := replay_sampleCalls
  exact ⟨heap, hreplay, accounts_of_reachable (reachable_of_replay hreplay)⟩

end Views

end BoundaryTag
