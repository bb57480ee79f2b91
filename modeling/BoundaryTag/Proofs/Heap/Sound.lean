import BoundaryTag.Heap.Basic
import BoundaryTag.Proofs.Pool.Honest
import BoundaryTag.Proofs.Region

namespace BoundaryTag.Heap

variable {ρ : Type} [Region ρ] [GrowsInPlace ρ]

/-- The pool is in order. It fills the region, which starts at a multiple of 16 and lies within the
    address space. -/
structure Sound (heap : Heap ρ) (blocks : List BlockInfo) (chains : Chains) : Prop where
  orderly : heap.pool.Orderly blocks chains
  base_eq : heap.pool.arena.base = Region.base heap.region
  len_eq : heap.pool.arena.len = Region.len heap.region
  base_mod : heap.pool.arena.base % 16 = 0
  len_le : heap.pool.arena.len ≤ GrowsInPlace.capacity heap.region
  addressable : heap.pool.arena.base + GrowsInPlace.capacity heap.region ≤ UInt64.size

/-- An operation that is refused leaves the pool as it was, and the span of the region. -/
structure Refuses (heap after : Heap ρ) : Prop where
  pool_eq : after.pool = heap.pool
  base_eq : Region.base after.region = Region.base heap.region
  len_eq : Region.len after.region = Region.len heap.region
  capacity_eq : GrowsInPlace.capacity after.region = GrowsInPlace.capacity heap.region

/-- What an operation does to the blocks that it is not about: nothing. The arena may grow, and
    payloads may be written, of the blocks `written` alone. -/
structure Carries (heap after : Heap ρ) (kept written : List BlockInfo) : Prop where
  build_eq : after.pool.arena.build = heap.pool.arena.build
  base_eq : after.pool.arena.base = heap.pool.arena.base
  len_le : heap.pool.arena.len ≤ after.pool.arena.len
  capacity_eq : GrowsInPlace.capacity after.region = GrowsInPlace.capacity heap.region
  keeps : ∀ info ∈ kept, heap.pool.arena.memory.Keeps after.pool.arena.memory info
  honest : heap.pool.KeepsHonest after.pool written

/-- The block `info` comes into use beside those that are kept. -/
structure Grants (heap after : Heap ρ) (kept : List BlockInfo) (info : BlockInfo) : Prop where
  sound : ∃ blocks chains, after.Sound blocks chains ∧ (held blocks).Perm (info :: kept)
  carries : heap.Carries after kept [info]

/-- No blocks stay in use but those that are kept. -/
structure Frees (heap after : Heap ρ) (kept : List BlockInfo) : Prop where
  sound : ∃ blocks chains, after.Sound blocks chains ∧ (held blocks).Perm kept
  carries : heap.Carries after kept []
  len_eq : after.pool.arena.len = heap.pool.arena.len

variable {heap middle after : Heap ρ}
  {front rest blocks infos kept more written target : List BlockInfo}
  {chains : Chains} {info : BlockInfo}

theorem Refuses.refl (heap : Heap ρ) : heap.Refuses heap := ⟨rfl, rfl, rfl, rfl⟩

theorem Refuses.sound (h : heap.Refuses after) (hsound : heap.Sound blocks chains) :
    after.Sound blocks chains where
  orderly := h.pool_eq ▸ hsound.orderly
  base_eq := by rw [h.pool_eq, h.base_eq, hsound.base_eq]
  len_eq := by rw [h.pool_eq, h.len_eq, hsound.len_eq]
  base_mod := h.pool_eq ▸ hsound.base_mod
  len_le := by
    rw [h.pool_eq, h.capacity_eq]
    exact hsound.len_le
  addressable := by
    rw [h.pool_eq, h.capacity_eq]
    exact hsound.addressable

theorem Refuses.carries (h : heap.Refuses after) (kept written : List BlockInfo) :
    heap.Carries after kept written := by
  refine ⟨by rw [h.pool_eq], by rw [h.pool_eq], by rw [h.pool_eq], h.capacity_eq,
    fun info _ => ?_, ?_⟩
  · rw [h.pool_eq]
    exact .refl _ _
  · rw [h.pool_eq]
    exact .refl _ _

theorem Carries.trans (hfirst : heap.Carries middle kept written)
    (hsecond : middle.Carries after more written) (hmore : ∀ info ∈ kept, info ∈ more) :
    heap.Carries after kept written where
  build_eq := by rw [hsecond.build_eq, hfirst.build_eq]
  base_eq := by rw [hsecond.base_eq, hfirst.base_eq]
  len_le := hfirst.len_le.trans hsecond.len_le
  capacity_eq := by rw [hsecond.capacity_eq, hfirst.capacity_eq]
  keeps info hinfo := (hfirst.keeps info hinfo).trans (hsecond.keeps info (hmore info hinfo))
  honest := hfirst.honest.trans hsecond.honest hfirst.len_le

theorem Carries.mono (h : heap.Carries after kept written) (hmore : ∀ info ∈ more, info ∈ kept)
    (htarget : ∀ info ∈ written, info ∈ target) : heap.Carries after more target where
  build_eq := h.build_eq
  base_eq := h.base_eq
  len_le := h.len_le
  capacity_eq := h.capacity_eq
  keeps info hinfo := h.keeps info (hmore info hinfo)
  honest := h.honest.mono htarget

theorem Carries.address_eq (h : heap.Carries after kept written) (block : Block) :
    after.pool.arena.address block = heap.pool.arena.address block := by
  rw [Arena.address, Arena.address, h.base_eq]

/-- Where no payload is written, none of any list is. -/
theorem Carries.unwritten (h : heap.Carries after kept []) (written : List BlockInfo) :
    heap.Carries after kept written :=
  h.mono (fun _ => id) nofun

/-- A sound heap with other words in its arena and another index. -/
theorem Sound.of_rewrite (h : heap.Sound blocks chains) {index : FreeIndex} {memory : Memory}
    {after : Chains} (horderly : (heap.pool.rewrite index memory).Orderly infos after) :
    Sound { heap with pool := heap.pool.rewrite index memory } infos after :=
  ⟨horderly, h.base_eq, h.len_eq, h.base_mod, h.len_le, h.addressable⟩

/-- Changes to one block and to free ones carry over all others in use. -/
theorem Sound.carries_of_rewrite (h : heap.Sound (front ++ info :: rest) chains)
    {index : FreeIndex} {memory : Memory}
    (hhonest : heap.pool.KeepsHonest (heap.pool.rewrite index memory) written)
    (hchange : heap.pool.arena.memory.Rewrites memory fun offset _ =>
      Loose (front ++ info :: rest) offset ∨ info.Covers offset) :
    heap.Carries { heap with pool := heap.pool.rewrite index memory }
      (held front ++ held rest) written := by
  refine ⟨rfl, rfl, Nat.le_refl _, rfl, fun x hx => ?_, hhonest⟩
  obtain ⟨hside, hallocated⟩ := mem_held_sides.1 hx
  have hmem : x ∈ held (front ++ info :: rest) := by
    refine mem_held.2 ⟨?_, hallocated⟩
    rcases hside with hside | hside <;> simp [hside]
  have htiles := h.orderly.represents.laid.tiles
  exact h.orderly.represents.keeps hmem hchange fun offset hcovers =>
    htiles.not_covers rfl hside hcovers

/-- A caller's writes to a block in use keep a heap sound, and carry over the others. -/
theorem Sound.of_payload (h : heap.Sound blocks chains)
    (hheld : (held blocks).Perm (info :: kept)) {memory : Memory}
    (hchange : heap.pool.arena.memory.Rewrites memory fun offset _ => info.HoldsAt offset) :
    Sound { heap with pool := heap.pool.rewrite heap.pool.index memory } blocks chains ∧
      heap.Carries { heap with pool := heap.pool.rewrite heap.pool.index memory } kept [info] := by
  obtain ⟨front, rest, rfl, hallocated, hkept⟩ := exists_of_held_perm hheld
  have hmem : info ∈ front ++ info :: rest := by simp
  have hrepresents := h.orderly.represents.of_payload hmem hallocated hchange
  have hhonest := Pool.keepsHonest_of_payload h.orderly.represents.laid hrepresents.laid hchange
  refine ⟨h.of_rewrite ⟨hrepresents, h.orderly.tidy⟩, ?_⟩
  have hcarries := h.carries_of_rewrite hhonest
    (hchange.mono fun offset word hholds => .inr hholds.covers)
  exact hcarries.mono (fun x hx => hkept.mem_iff.2 hx) fun _ => id

theorem Grants.perm (h : heap.Grants after kept info) (hperm : kept.Perm more) :
    heap.Grants after more info := by
  obtain ⟨⟨blocks, chains, hsound, hheld⟩, hcarries⟩ := h
  exact ⟨⟨blocks, chains, hsound, hheld.trans (hperm.cons info)⟩,
    hcarries.mono (fun _ hinfo => hperm.mem_iff.2 hinfo) fun _ => id⟩

theorem Grants.liesIn (h : heap.Grants after kept info) :
    info.LiesIn 32 after.pool.arena.len := by
  obtain ⟨blocks, chains, hsound, hheld⟩ := h.sound
  have hinfo := (mem_held.1 (hheld.mem_iff.2 List.mem_cons_self)).1
  exact hsound.orderly.represents.laid.liesIn hinfo

/-- A block that was granted may be written to. -/
theorem Grants.of_payload (h : heap.Grants after kept info) {memory : Memory}
    (hchange : after.pool.arena.memory.Rewrites memory fun offset _ => info.HoldsAt offset) :
    heap.Grants { after with pool := after.pool.rewrite after.pool.index memory } kept info := by
  obtain ⟨⟨blocks, chains, hsound, hheld⟩, hcarries⟩ := h
  obtain ⟨hafter, hwritten⟩ := hsound.of_payload hheld hchange
  exact ⟨⟨blocks, chains, hafter, hheld⟩, hcarries.trans hwritten fun _ => id⟩

/-- A block that was granted overlaps none of those that are kept. -/
theorem Grants.apart (h : heap.Grants after kept info) {other : BlockInfo} (hother : other ∈ kept)
    {offset : Nat} (hcovers : other.Covers offset) : ¬ info.Covers offset := by
  obtain ⟨blocks, chains, hsound, hheld⟩ := h.sound
  have htiles := hsound.orderly.represents.laid.tiles
  obtain ⟨front, rest, rfl, -, hkept⟩ := exists_of_held_perm hheld
  refine htiles.not_covers rfl ?_ hcovers
  exact (mem_held_sides.1 (hkept.mem_iff.2 hother)).1

/-- The address of a block in use is a multiple of 16. -/
theorem Sound.address_mod (h : heap.Sound blocks chains) (hinfo : info ∈ blocks) :
    heap.pool.arena.address info.block % 16 = 0 := by
  have hbase := h.base_mod
  have haligned := (h.orderly.represents.laid.liesIn hinfo).aligned
  unfold Arena.address
  omega

end BoundaryTag.Heap
