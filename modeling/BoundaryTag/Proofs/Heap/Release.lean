import BoundaryTag.Heap.Release
import BoundaryTag.Proofs.Heap.Allocate
import BoundaryTag.Proofs.Pool.Release

namespace BoundaryTag.Heap

variable {ρ : Type} [Region ρ] [GrowsInPlace ρ] {heap : Heap ρ}
  {front rest blocks kept : List BlockInfo} {chains : Chains} {info : BlockInfo}

/-- A block in use can be released in its place. It is merged with its free neighbours. -/
theorem Sound.release_middle (h : heap.Sound (front ++ info :: rest) chains)
    (hallocated : info.allocated = true) (log : Array Event) :
    ∃ index memory,
      heap.pool.release (heap.pool.arena.address info.block) =
        .ok (heap.pool.rewrite index memory) ∧
      (release (some (heap.pool.arena.address info.block))).runOn heap log =
        .ok ((), { heap with pool := heap.pool.rewrite index memory }) log ∧
      Sound { heap with pool := heap.pool.rewrite index memory }
        (mergeAt front { info with allocated := false } rest)
        ((chains.push (SizeClass.ofSize info.size) info.block).mergeAt front
          { info with allocated := false } rest) ∧
      heap.pool.KeepsHonest (heap.pool.rewrite index memory) [] ∧
      heap.pool.arena.memory.Rewrites memory fun offset _ =>
        (chains.push (SizeClass.ofSize info.size) info.block).HasLinkAt offset ∨
          ∃ x ∈ partsAt front { info with allocated := false } rest, x.HasTagAt offset := by
  obtain ⟨index, memory, hrelease, horderly, hhonest, hchange⟩ := h.orderly.release hallocated
  refine ⟨index, memory, hrelease, ?_, h.of_rewrite horderly, hhonest,
    hchange.mono fun _ _ => And.left⟩
  simp only [release, HeapM.runOn_bind, HeapM.runOn_get, HeapM.runOn_liftM, hrelease,
    HeapM.runOn_set]

/-- A block in use can be released, and the others stay in use. -/
theorem Sound.release_spec (h : heap.Sound blocks chains)
    (hheld : (held blocks).Perm (info :: kept)) (log : Array Event) :
    ∃ after, (release (some (heap.pool.arena.address info.block))).runOn heap log =
        .ok ((), after) log ∧
      heap.Frees after kept := by
  obtain ⟨front, rest, rfl, hallocated, hkept⟩ := exists_of_held_perm hheld
  obtain ⟨index, memory, -, hrun, hsound, hhonest, hchange⟩ := h.release_middle hallocated log
  have hcarries := h.carries_of_rewrite hhonest
    (hchange.mono fun _ _ => h.orderly.represents.loose_of_release)
  refine ⟨_, hrun, ⟨_, _, hsound, ?_⟩,
    hcarries.mono (fun x hx => hkept.mem_iff.2 hx) fun _ => id, rfl⟩
  rw [held_mergeAt]
  exact hkept

/-- Moves memory: what is at `old`, as far as `count` bytes, goes to memory that is asked for. -/
def relocate (request : HeapM ρ (Option Nat)) (old count : Nat) : HeapM ρ (Option Nat) := do
  let some new ← request | return none
  copy old new count
  release (some old)
  return some new

omit [Region ρ] [GrowsInPlace ρ] in
theorem runOn_relocate_of_none {request : HeapM ρ (Option Nat)} {after : Heap ρ}
    {log log' : Array Event} (hrequest : request.runOn heap log = .ok (none, after) log')
    (old count : Nat) : (relocate request old count).runOn heap log = .ok (none, after) log' := by
  simp only [relocate, HeapM.runOn_bind, hrequest, HeapM.runOn_pure]

omit [GrowsInPlace ρ] in
/-- Resizing to some bytes moves as many as the old block and the request have in common. -/
theorem runOn_resize {old size usable : Nat} {block : Block} {log : Array Event} (hsize : size ≠ 0)
    (hblock : heap.pool.arena.blockAt? old = some block)
    (husable : heap.pool.arena.usableBytes block = .ok usable) :
    (resize (some old) size).runOn heap log =
      (relocate (allocate size) old (min size usable)).runOn heap log := by
  cases hrequest : (allocate size).runOn heap log with
  | error fault log' =>
    simp only [resize, relocate, if_neg hsize, HeapM.runOn_bind, HeapM.runOn_get, hblock,
      HeapM.runOn_liftM, husable, hrequest]
  | ok state log' =>
    obtain ⟨_ | new, after⟩ := state <;>
      simp only [resize, relocate, if_neg hsize, HeapM.runOn_bind, HeapM.runOn_get, hblock,
        HeapM.runOn_liftM, husable, hrequest]

/-- Bytes are copied to a new block before the old one is released. -/
theorem Grants.copy_spec {after : Heap ρ} {fresh : BlockInfo} (h : heap.Grants after kept fresh)
    {count : Nat} (hroom : count + 16 ≤ fresh.size) (source : Nat) (log : Array Event) :
    ∃ memory, (copy source (after.pool.arena.address fresh.block) count).runOn after log =
        .ok ((), { after with pool := after.pool.rewrite after.pool.index memory }) log ∧
      heap.Grants { after with pool := after.pool.rewrite after.pool.index memory } kept fresh ∧
      ∀ i < count, memory.byte (fresh.block.offset + i) =
        after.pool.arena.memory.byte (source - after.pool.arena.base + i) := by
  have hlies := h.liesIn
  have hchange : after.pool.arena.memory.Rewrites
      (after.pool.arena.memory.copy (source - after.pool.arena.base) fresh.block.offset count)
      fun offset _ => fresh.HoldsAt offset := by
    refine (Memory.rewrites_copy _ _ _ _).mono fun offset word hspan => ?_
    refine hlies.holds_span (Nat.le_refl _) ?_ hspan
    unfold BlockInfo.stop
    omega
  refine ⟨_, ?_, h.of_payload hchange, fun i hi => ?_⟩
  · rw [copy, HeapM.runOn_modify, Arena.copy, Arena.address, Nat.add_sub_cancel_left]
    rfl
  · rw [Memory.byte_copy, if_pos (by omega), Nat.add_sub_cancel_left]

/-- An old block is released after a new one was granted, which keeps its bytes. -/
theorem Grants.release_spec {after : Heap ρ} {fresh : BlockInfo}
    (h : heap.Grants after (info :: kept) fresh) (log : Array Event) :
    ∃ last, (release (some (heap.pool.arena.address info.block))).runOn after log =
        .ok ((), last) log ∧
      heap.Grants last kept fresh ∧
      after.pool.arena.memory.Keeps last.pool.arena.memory fresh ∧
      last.pool.arena.len = after.pool.arena.len := by
  obtain ⟨⟨blocks, chains, hsound, hheld⟩, hcarries⟩ := h
  have hswap : (held blocks).Perm (info :: fresh :: kept) := hheld.trans (.swap info fresh kept)
  obtain ⟨last, hrelease, hfrees⟩ := hsound.release_spec hswap log
  rw [Arena.address, hcarries.base_eq] at hrelease
  refine ⟨last, hrelease, ⟨hfrees.sound, ?_⟩, hfrees.carries.keeps fresh List.mem_cons_self,
    hfrees.len_eq⟩
  exact (hcarries.mono (fun x hx => List.mem_cons_of_mem _ hx) fun _ => id).trans
    (hfrees.carries.unwritten _) fun x hx => List.mem_cons_of_mem _ hx

/-- Once memory was granted, a block is moved there with the bytes that both have room for. -/
theorem Grants.relocate_spec {middle : Heap ρ} {fresh : BlockInfo}
    (h : heap.Grants middle (info :: kept) fresh) (hlies : info.LiesIn 32 heap.pool.arena.len)
    {request : HeapM ρ (Option Nat)} {log log' : Array Event}
    (hrequest : request.runOn heap log =
      .ok (some (middle.pool.arena.address fresh.block), middle) log')
    {count : Nat} (hsource : count + 16 ≤ info.size) (htarget : count + 16 ≤ fresh.size) :
    ∃ after, (relocate request (heap.pool.arena.address info.block) count).runOn heap log =
        .ok (some (after.pool.arena.address fresh.block), after) log' ∧
      heap.Grants after kept fresh ∧
      (∀ i < count, after.pool.arena.byte (after.pool.arena.address fresh.block + i) =
        heap.pool.arena.byte (heap.pool.arena.address info.block + i)) ∧
      after.pool.arena.len = middle.pool.arena.len := by
  obtain ⟨memory, hcopy, hcopied, hbytes⟩ :=
    h.copy_spec htarget (heap.pool.arena.address info.block) log'
  obtain ⟨after, hrelease, hafter, hkeeps, hlen⟩ := hcopied.release_spec log'
  have hmiddle := h.carries.base_eq
  have hbase : after.pool.arena.base = middle.pool.arena.base :=
    hafter.carries.base_eq.trans hmiddle.symm
  refine ⟨after, ?_, hafter, fun i hi => ?_, hlen⟩
  · simp only [relocate, HeapM.runOn_bind, hrequest, hcopy, hrelease, HeapM.runOn_pure]
    rw [Arena.address, Arena.address, hbase]
  · have hfresh : fresh.HoldsAt (fresh.block.offset + i) := by
      simp only [BlockInfo.HoldsAt, BlockInfo.stop]
      omega
    have hinfo : info.HoldsAt (info.block.offset + i) := by
      simp only [BlockInfo.HoldsAt, BlockInfo.stop]
      omega
    have hold := h.carries.keeps info List.mem_cons_self
    have hplace : heap.pool.arena.address info.block - middle.pool.arena.base + i =
        info.block.offset + i := by
      rw [hmiddle, Arena.address, Nat.add_sub_cancel_left]
    calc after.pool.arena.byte (after.pool.arena.address fresh.block + i)
      _ = after.pool.arena.memory.byte (fresh.block.offset + i) := by
        rw [Arena.byte, Arena.address, Nat.add_assoc, Nat.add_sub_cancel_left]
      _ = memory.byte (fresh.block.offset + i) := hkeeps.byte_eq h.liesIn.aligned hfresh
      _ = middle.pool.arena.memory.byte (info.block.offset + i) := by rw [hbytes i hi, hplace]
      _ = heap.pool.arena.memory.byte (info.block.offset + i) := hold.byte_eq hlies.aligned hinfo
      _ = heap.pool.arena.byte (heap.pool.arena.address info.block + i) := by
        rw [Arena.byte, Arena.address, Nat.add_assoc, Nat.add_sub_cancel_left]

/-- Resizing refuses, releases or moves a block in use. -/
theorem Sound.resize_spec (h : heap.Sound blocks chains)
    (hheld : (held blocks).Perm (info :: kept)) (size : Nat) (log : Array Event) :
    ∃ answer after log',
      (resize (some (heap.pool.arena.address info.block)) size).runOn heap log =
        .ok (answer, after) log' ∧
      (answer = none ∧ size ≠ 0 ∧ heap.Refuses after ∨
        answer = none ∧ size = 0 ∧ heap.Frees after kept ∨
        ∃ fresh, answer = some (after.pool.arena.address fresh.block) ∧
          heap.Grants after kept fresh ∧
          (∀ x ∈ held blocks, ∀ offset, x.Covers offset → ¬ fresh.Covers offset) ∧
          size + 16 ≤ fresh.size ∧
          (∀ i < min size (info.size - 16),
            after.pool.arena.byte (after.pool.arena.address fresh.block + i) =
              heap.pool.arena.byte (heap.pool.arena.address info.block + i)) ∧
          ∃ new middle, (allocate size).runOn heap log = .ok (new, middle) log' ∧
            after.pool.arena.len = middle.pool.arena.len) := by
  by_cases hsize : size = 0
  · obtain ⟨after, hrelease, hfrees⟩ := h.release_spec hheld log
    refine ⟨none, after, log, ?_, .inr (.inl ⟨rfl, hsize, hfrees⟩)⟩
    simp only [resize, if_pos hsize, HeapM.runOn_bind, hrelease, HeapM.runOn_pure]
  · have hinfo := (mem_held.1 (hheld.mem_iff.2 List.mem_cons_self)).1
    have hlies := h.orderly.represents.laid.liesIn hinfo
    have hlarge := hlies.size_ge
    have hblock := h.orderly.represents.laid.blockAt?_address hinfo
    obtain ⟨tag, hheader, htag, -⟩ := h.orderly.represents.header_eq hinfo
    have husable : heap.pool.arena.usableBytes info.block = .ok (info.size - 16) := by
      rw [Arena.usableBytes, hheader, ok_bind, htag, pure_eq_ok]
      rfl
    rw [runOn_resize hsize hblock husable]
    rcases h.request_spec size log with
      ⟨error, after, log', hrequest, hrefuses⟩ |
      ⟨needed, fresh, middle, log', hneeded, hrequest, hgrants, hlarge'⟩
    · have hallocate : (allocate size).runOn heap log = .ok (none, after) log' := by
        rw [allocate, RequestM.runOn_granted, hrequest]
        rfl
      exact ⟨none, after, log', runOn_relocate_of_none hallocate _ _, .inl ⟨rfl, hsize, hrefuses⟩⟩
    · have hallocate : (allocate size).runOn heap log =
          .ok (some (middle.pool.arena.address fresh.block), middle) log' := by
        rw [allocate, RequestM.runOn_granted, hrequest]
        rfl
      obtain ⟨-, -, hroom, -⟩ := blockSize_spec hneeded
      have hsource : min size (info.size - 16) + 16 ≤ info.size := by omega
      have htarget : min size (info.size - 16) + 16 ≤ fresh.size := by omega
      obtain ⟨after, hrun, hmoved, hbytes, hlen⟩ :=
        (hgrants.perm hheld).relocate_spec hlies hallocate hsource htarget
      exact ⟨_, after, log', hrun, .inr (.inr ⟨fresh, rfl, hmoved,
        fun x hx offset => hgrants.apart hx, Nat.le_trans hroom hlarge', hbytes, _, middle,
        hallocate, hlen⟩)⟩

end BoundaryTag.Heap
