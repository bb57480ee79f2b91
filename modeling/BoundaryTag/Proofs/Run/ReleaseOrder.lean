import BoundaryTag.Proofs.Audit.Agreement
import BoundaryTag.Proofs.Pool.Canonical
import BoundaryTag.Proofs.Pool.Count

namespace BoundaryTag

/-- Releases the memory at some addresses, one after the other. -/
def Heap.releaseAll {ρ : Type} [Region ρ] (addresses : List Nat) : HeapM ρ Unit :=
  addresses.forM fun address => Heap.release (some address)

/-- The same blocks, the same figures, and in the list of each class the same members, in any
    order. -/
def Pool.Alike (pool other : Pool) : Prop :=
  ∃ blocks stats chains links, pool.Shows blocks chains ∧ other.Shows blocks links ∧
    pool.stats = .ok stats ∧ other.stats = .ok stats ∧
    ∀ sizeClass, (chains sizeClass).Perm (links sizeClass)

namespace Pool.Orderly

variable {pool after : Pool} {blocks infos : List BlockInfo} {chains links : Chains}

theorem shows (h : pool.Orderly blocks chains) : pool.Shows blocks chains :=
  ⟨Pool.blocks_eq h.represents.laid, h.represents.threads.listFrom_head_eq⟩

/-- Pools over one span are alike if their blocks in use are the same. -/
theorem alike (h : pool.Orderly blocks chains) (hafter : after.Orderly infos links)
    (hlen : after.arena.len = pool.arena.len) (hheld : held infos = held blocks) :
    pool.Alike after := by
  obtain rfl := h.blocks_eq hafter hlen hheld
  refine ⟨_, _, chains, links, h.shows, hafter.shows, Pool.stats_eq h.represents.laid, ?_,
    fun sizeClass => (h.chains_perm hafter sizeClass).symm⟩
  rw [Pool.stats_eq hafter.represents.laid, hlen]

end Pool.Orderly

section Runs

variable {ρ : Type} [Region ρ] [GrowsInPlace ρ] {build : Build} {region : ρ} {heap : Heap ρ}
  {live gone first second : List Nat} {blocks : List BlockInfo} {chains : Chains}
  {info : BlockInfo}

/-- What is in use after a block is released: the blocks at other addresses. -/
theorem Heap.Sound.release_held (h : heap.Sound blocks chains) (hinfo : info ∈ held blocks)
    (log : Array Event) :
    ∃ index memory infos links,
      (Heap.release (some (heap.pool.arena.address info.block))).runOn heap log =
        .ok ((), { heap with pool := heap.pool.rewrite index memory }) log ∧
      Sound { heap with pool := heap.pool.rewrite index memory } infos links ∧
      held infos = (held blocks).filter fun x =>
        heap.pool.arena.address x.block ≠ heap.pool.arena.address info.block := by
  obtain ⟨hmem, hallocated⟩ := mem_held.1 hinfo
  obtain ⟨front, rest, rfl⟩ := List.append_of_mem hmem
  obtain ⟨index, memory, -, hrun, hsound, -⟩ := h.release_middle hallocated log
  refine ⟨index, memory, _, _, hrun, hsound, ?_⟩
  have hothers : (held front ++ held rest).filter (fun x => decide
      (heap.pool.arena.address x.block ≠ heap.pool.arena.address info.block)) =
      held front ++ held rest := by
    refine List.filter_eq_self.2 fun x hx => decide_eq_true fun heq => ?_
    exact h.orderly.represents.laid.tiles.block_ne rfl (mem_held_sides.1 hx).1
      (Block.ext (Nat.add_left_cancel heq))
  rw [held_mergeAt, held_append, held_cons_of_allocated hallocated, List.filter_append,
    List.filter_cons_of_neg (by simp), ← List.filter_append, hothers]

/-- What is in use after some blocks are released, in any order. -/
theorem Heap.Sound.releaseAll_spec (h : heap.Sound blocks chains) (hnodup : gone.Nodup)
    (hgone : ∀ p ∈ gone, p ∈ heap.addresses (held blocks)) (log : Array Event) :
    ∃ index memory infos links, (Heap.releaseAll gone).runOn heap log =
        .ok ((), { heap with pool := heap.pool.rewrite index memory }) log ∧
      Sound { heap with pool := heap.pool.rewrite index memory } infos links ∧
      held infos = (held blocks).filter fun x => heap.pool.arena.address x.block ∉ gone := by
  induction gone generalizing heap blocks chains with
  | nil => exact ⟨heap.pool.index, heap.pool.arena.memory, blocks, chains, rfl, h, by simp⟩
  | cons p gone ih =>
    obtain ⟨hp, hrest⟩ := List.nodup_cons.1 hnodup
    obtain ⟨hfirst, hothers⟩ := List.forall_mem_cons.1 hgone
    obtain ⟨info, hinfo, rfl⟩ := List.mem_map.1 hfirst
    obtain ⟨index₁, memory₁, infos₁, links₁, hrun₁, hsound₁, hheld₁⟩ := h.release_held hinfo log
    have hleft : ∀ q ∈ gone, q ∈ addresses
        { heap with pool := heap.pool.rewrite index₁ memory₁ } (held infos₁) := by
      intro q hq
      obtain ⟨other, hother, rfl⟩ := List.mem_map.1 (hothers q hq)
      refine List.mem_map.2 ⟨other, ?_, rfl⟩
      rw [hheld₁]
      refine List.mem_filter.2 ⟨hother, decide_eq_true fun heq => ?_⟩
      exact hp (heq ▸ hq)
    obtain ⟨index, memory, infos, links, hrun, hsound, hheld⟩ := ih hsound₁ hrest hleft
    refine ⟨index, memory, infos, links, ?_, hsound, ?_⟩
    · simp only [releaseAll, List.forM_eq_forM, List.forM_cons, HeapM.runOn_bind, hrun₁]
      exact hrun
    · have hleftHeld : held infos =
          (held infos₁).filter fun x => heap.pool.arena.address x.block ∉ gone := hheld
      rw [hleftHeld, hheld₁, List.filter_filter]
      refine List.filter_congr fun x _ => ?_
      simp [Bool.and_comm]

/-- The memory at some addresses may be released in any order: afterwards blocks and figures are the
    same, and in each class the same blocks are listed. -/
theorem alike_of_releaseAll (h : Reachable build region heap live) (hnodup : first.Nodup)
    (hlive : ∀ p ∈ first, p ∈ live) (hperm : first.Perm second) (log : Array Event) :
    ∃ left right, (Heap.releaseAll first).runOn heap log = .ok ((), left) log ∧
      (Heap.releaseAll second).runOn heap log = .ok ((), right) log ∧
      left.pool.Alike right.pool := by
  obtain ⟨blocks, chains, howns⟩ := h.owns
  have hheld : ∀ p ∈ first, p ∈ heap.addresses (held blocks) := fun p hp =>
    howns.perm.mem_iff.2 (hlive p hp)
  obtain ⟨index, memory, infos, links, hrun, hsound, hleft⟩ :=
    howns.sound.releaseAll_spec hnodup hheld log
  obtain ⟨index', memory', infos', links', hrun', hsound', hright⟩ :=
    howns.sound.releaseAll_spec (hperm.nodup_iff.1 hnodup)
      (fun p hp => hheld p (hperm.mem_iff.2 hp)) log
  refine ⟨_, _, hrun, hrun', hsound.orderly.alike hsound'.orderly rfl ?_⟩
  rw [hleft, hright]
  simp only [hperm.mem_iff]

theorem alike_after_sampleCalls : ∃ heap,
    replay .checked sampleRegion sampleCalls = some (heap, [66112, 66048, 65696]) ∧
    ∃ left right,
      (Heap.releaseAll [66048, 66112, 65696]).runOn heap #[] = .ok ((), left) #[] ∧
      (Heap.releaseAll [65696, 66112, 66048]).runOn heap #[] = .ok ((), right) #[] ∧
      left.pool.Alike right.pool := by
  obtain ⟨heap, hreplay⟩ := replay_sampleCalls
  exact ⟨heap, hreplay, alike_of_releaseAll (reachable_of_replay hreplay) (by decide) (by decide)
    (by decide) #[]⟩

end Runs

end BoundaryTag
