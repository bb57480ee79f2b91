import BoundaryTag.Proofs.Heap.Aligned
import BoundaryTag.Proofs.Heap.Release
import BoundaryTag.Proofs.Run.Basic

namespace BoundaryTag.Heap

variable {ρ : Type} [Region ρ]

/-- What callers get for some blocks. -/
def addresses (heap : Heap ρ) (infos : List BlockInfo) : List Nat :=
  infos.map fun info => heap.pool.arena.address info.block

variable [GrowsInPlace ρ]

/-- A sound heap whose blocks in use are those at the addresses `live`. -/
structure Owns (heap : Heap ρ) (live : List Nat) (blocks : List BlockInfo) (chains : Chains) :
    Prop where
  sound : heap.Sound blocks chains
  perm : (heap.addresses (held blocks)).Perm live

/-- How a heap goes on: with the addresses `live`, and nothing happens to the blocks `kept`. What is
    in use and was not among the blocks `before` is the answer's, and overlaps none of them. -/
def Continues (heap after : Heap ρ) (answer : Option Nat) (live : List Nat)
    (before kept : List BlockInfo) : Prop :=
  ∃ blocks chains, after.Owns live blocks chains ∧ (∀ info ∈ kept, info ∈ held blocks) ∧
    heap.Carries after kept (held blocks) ∧
    ∀ info ∈ held blocks, info ∈ before ∨
      answer = some (after.pool.arena.address info.block) ∧
        ∀ x ∈ before, ∀ offset, x.Covers offset → ¬ info.Covers offset

variable {heap after : Heap ρ} {live : List Nat} {blocks before kept : List BlockInfo}
  {chains : Chains} {info : BlockInfo}

/-- An address in use is that of a block in use. -/
theorem Owns.exists_info (h : heap.Owns live blocks chains) {address : Nat}
    (haddress : address ∈ live) : ∃ info kept, (held blocks).Perm (info :: kept) ∧
      heap.pool.arena.address info.block = address ∧
      (heap.addresses kept).Perm (live.erase address) := by
  have hmem := h.perm.mem_iff.2 haddress
  obtain ⟨info, hinfo, rfl⟩ := List.mem_map.1 hmem
  have hheld := List.perm_cons_erase hinfo
  have hrest := (hheld.map _).symm.trans (h.perm.trans (List.perm_cons_erase haddress))
  exact ⟨info, _, hheld, rfl, hrest.cons_inv⟩

theorem Owns.exists_held (h : heap.Owns live blocks chains) {address : Nat}
    (haddress : address ∈ live) :
    ∃ info ∈ held blocks, heap.pool.arena.address info.block = address := by
  obtain ⟨info, kept, hheld, hinfo, -⟩ := h.exists_info haddress
  exact ⟨info, hheld.mem_iff.2 List.mem_cons_self, hinfo⟩

theorem Owns.nodup (h : heap.Owns live blocks chains) : live.Nodup := by
  have htiles := h.sound.orderly.represents.laid.tiles
  refine h.perm.nodup_iff.1 ((htiles.nodup.filter _).map_on fun x hx y hy heq => ?_)
  have hblock : x.block = y.block := Block.ext (Nat.add_left_cancel heq)
  exact htiles.eq_of_block_eq rfl (mem_held.1 hx).1 (mem_held.1 hy).1 hblock

theorem Carries.addresses_eq {written : List BlockInfo} (h : heap.Carries after kept written)
    (infos : List BlockInfo) : after.addresses infos = heap.addresses infos := by
  simp only [addresses, h.address_eq]

theorem Refuses.continues (h : heap.Refuses after) (howns : heap.Owns live blocks chains) :
    heap.Continues after none live (held blocks) (held blocks) := by
  have hcarries := h.carries (held blocks) (held blocks)
  refine ⟨blocks, chains, ⟨h.sound howns.sound, ?_⟩, fun _ => id, hcarries, fun _ => .inl⟩
  rw [hcarries.addresses_eq]
  exact howns.perm

theorem Frees.continues (h : heap.Frees after kept) (hkept : (heap.addresses kept).Perm live)
    (hbefore : ∀ x ∈ kept, x ∈ before) : heap.Continues after none live before kept := by
  obtain ⟨⟨blocks, chains, hsound, hheld⟩, hcarries, -⟩ := h
  refine ⟨blocks, chains, ⟨hsound, ?_⟩, fun _ hinfo => hheld.mem_iff.2 hinfo,
    hcarries.unwritten _, fun x hx => .inl (hbefore x (hheld.mem_iff.1 hx))⟩
  rw [hcarries.addresses_eq]
  exact (hheld.map _).trans hkept

/-- The address of a block that is granted comes into use, where no block was in use before. -/
theorem Grants.continues_of_apart (h : heap.Grants after kept info)
    (hkept : (heap.addresses kept).Perm live) (hbefore : ∀ x ∈ kept, x ∈ before)
    (hapart : ∀ x ∈ before, ∀ offset, x.Covers offset → ¬ info.Covers offset) :
    heap.Continues after (some (after.pool.arena.address info.block))
      (after.pool.arena.address info.block :: live) before kept := by
  obtain ⟨⟨blocks, chains, hsound, hheld⟩, hcarries⟩ := h
  have hinfo : info ∈ held blocks := hheld.mem_iff.2 List.mem_cons_self
  refine ⟨blocks, chains, ⟨hsound, ?_⟩,
    fun _ hinfo => hheld.mem_iff.2 (List.mem_cons_of_mem _ hinfo),
    hcarries.mono (fun _ => id) (List.forall_mem_singleton.2 hinfo), fun x hx => ?_⟩
  · have hall : (after.addresses (held blocks)).Perm (after.addresses (info :: kept)) :=
      hheld.map _
    have hrest : (after.addresses kept).Perm live := by
      rw [hcarries.addresses_eq]
      exact hkept
    exact hall.trans (hrest.cons _)
  · rcases List.mem_cons.1 (hheld.mem_iff.1 hx) with rfl | hx
    · exact .inr ⟨rfl, hapart⟩
    · exact .inl (hbefore x hx)

theorem Grants.continues (h : heap.Grants after kept info)
    (hkept : (heap.addresses kept).Perm live) :
    heap.Continues after (some (after.pool.arena.address info.block))
      (after.pool.arena.address info.block :: live) kept kept :=
  h.continues_of_apart hkept (fun _ => id) fun _ hx _ => h.apart hx

/-- An allocation answers with the address of a block that is granted, or with none. -/
theorem Owns.granted_spec (h : heap.Owns live blocks chains) {request : RequestM ρ Nat}
    {log : Array Event}
    (hrequest : (∃ error after log', request.runOn heap log = .ok (.error error, after) log' ∧
        heap.Refuses after) ∨
      ∃ info after log', request.runOn heap log =
          .ok (.ok (after.pool.arena.address info.block), after) log' ∧
        heap.Grants after (held blocks) info) :
    ∃ answer after log', request.granted.runOn heap log = .ok (answer, after) log' ∧
      heap.Continues after answer (answer.toList ++ live) (held blocks) (held blocks) := by
  rcases hrequest with
    ⟨error, after, log', hrun, hrefuses⟩ | ⟨info, after, log', hrun, hgrants⟩
  · refine ⟨none, after, log', ?_, hrefuses.continues h⟩
    rw [RequestM.runOn_granted, hrun]
    rfl
  · refine ⟨some _, after, log', ?_, hgrants.continues h.perm⟩
    rw [RequestM.runOn_granted, hrun]
    rfl

theorem Owns.allocate_spec (h : heap.Owns live blocks chains) (size : Nat)
    (log : Array Event) :
    ∃ answer after log', (allocate size).runOn heap log = .ok (answer, after) log' ∧
      heap.Continues after answer (answer.toList ++ live) (held blocks) (held blocks) := by
  refine h.granted_spec ((h.sound.request_spec size log).imp_right ?_)
  rintro ⟨needed, info, after, log', -, hrun, hgrants, -⟩
  exact ⟨info, after, log', hrun, hgrants⟩

theorem Owns.allocateZeroed_spec (h : heap.Owns live blocks chains) (count size : Nat)
    (log : Array Event) :
    ∃ answer after log', (allocateZeroed count size).runOn heap log = .ok (answer, after) log' ∧
      heap.Continues after answer (answer.toList ++ live) (held blocks) (held blocks) := by
  refine h.granted_spec ((h.sound.requestZeroed_spec count size log).imp_right ?_)
  rintro ⟨needed, info, after, log', -, hrun, hgrants, -, -⟩
  exact ⟨info, after, log', hrun, hgrants⟩

theorem Owns.allocateAligned_spec (h : heap.Owns live blocks chains) (align size : Nat)
    (log : Array Event) :
    ∃ answer after log', (allocateAligned align size).runOn heap log = .ok (answer, after) log' ∧
      heap.Continues after answer (answer.toList ++ live) (held blocks) (held blocks) := by
  refine h.granted_spec ((h.sound.requestAligned_spec align size log).imp_right ?_)
  rintro ⟨needed, info, after, log', -, hrun, hgrants, -⟩
  exact ⟨info, after, log', hrun, hgrants⟩

end BoundaryTag.Heap
