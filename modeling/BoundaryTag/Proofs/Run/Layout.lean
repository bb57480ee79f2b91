import BoundaryTag.LazyHeap.Layout
import BoundaryTag.Proofs.Run.Payload
import BoundaryTag.Proofs.Run.Refusal

namespace BoundaryTag

open Heap

inductive LayoutCall where
  | allocate (layout : Layout)
  | allocateZeroed (layout : Layout)
  | resize (old : Nat) (layout : Layout) (size : Nat)
  | release (old : Nat) (layout : Layout)

namespace LayoutCall

variable {ρ : Type}

def layout : LayoutCall → Layout
  | allocate layout | allocateZeroed layout | resize _ layout _ | release _ layout => layout

/-- How many bytes a call asks for. -/
def bytes : LayoutCall → Nat
  | allocate layout | allocateZeroed layout => layout.size
  | resize _ _ size => size
  | release .. => 0

/-- The address that a call is about. -/
def given? : LayoutCall → Option Nat
  | resize old _ _ | release old _ => some old
  | allocate _ | allocateZeroed _ => none

/-- The addresses in use after a call. A block that cannot be moved stays in use. -/
def live : LayoutCall → (answer : Option Nat) → List Nat → List Nat
  | allocate _, answer, before | allocateZeroed _, answer, before => answer.toList ++ before
  | resize old _ _, some address, before => address :: before.erase old
  | resize _ _ _, none, before => before
  | release old _, _, before => before.erase old

/-- A layout has a power of two as alignment, and memory for no bytes is not asked for. Memory is
    given back with the layout it was asked for, so that it has room for that. -/
structure Valid (heap : Heap ρ) (live : List Nat) (call : LayoutCall) : Prop where
  power : IsPowerOfTwo call.layout.align
  size_pos : 0 < call.layout.size
  bytes_pos : (∀ old layout, call ≠ release old layout) → 0 < call.bytes
  live : ∀ old ∈ call.given?, old ∈ live
  room : ∀ old ∈ call.given?, ∃ usable, heap.pool.usableSize old = .ok usable ∧
    call.layout.size ≤ usable

/-- What a heap does at a call by layout. -/
def serve [Region ρ] : LayoutCall → HeapM ρ (Option Nat)
  | allocate layout =>
    if layout.align ≤ alignment then Heap.allocate layout.size
    else Heap.allocateAligned layout.align layout.size
  | allocateZeroed layout =>
    if layout.align ≤ alignment then Heap.allocateZeroed 1 layout.size
    else do
      let some address ← Heap.allocateAligned layout.align layout.size | return none
      modify fun heap =>
        { heap with pool.arena := heap.pool.arena.zero address layout.size }
      return some address
  | resize old layout size =>
    if layout.align ≤ alignment then Heap.resize (some old) size
    else relocate (Heap.allocateAligned layout.align size) old (min layout.size size)
  | release old _ => do
    Heap.release (some old)
    return none

end LayoutCall

namespace Heap

variable {ρ : Type} [Region ρ] [GrowsInPlace ρ]

/-- A call by layout on a heap with some addresses in use is answered as promised. -/
structure Fulfils (heap : Heap ρ) (live : List Nat) (call : LayoutCall) (answer : Option Nat)
    (after : Heap ρ) : Prop where
  aligned : ∀ address ∈ answer, address % call.layout.align = 0
  fresh : ∀ address ∈ answer, address ∉ live
  large : ∀ address ∈ answer, ∃ usable, after.pool.usableSize address = .ok usable ∧
    call.bytes ≤ usable
  in_use : after.InUseAt (call.live answer live)
  separates : after.Separates (call.live answer live)
  preserves : ∀ address ∈ live, address ∈ call.live answer live → heap.Preserves after address
  zeroed : ∀ layout, call = .allocateZeroed layout → ∀ address ∈ answer, ∀ i < layout.size,
    after.pool.arena.byte (address + i) = 0
  moved : ∀ old layout size, call = .resize old layout size → ∀ address ∈ answer,
    ∀ i < min layout.size size,
      after.pool.arena.byte (address + i) = heap.pool.arena.byte (old + i)
  unchanged : (∀ old layout, call ≠ .release old layout) → answer = none → heap.Refuses after

variable {heap after : Heap ρ} {live left : List Nat} {blocks kept : List BlockInfo}
  {chains : Chains} {info : BlockInfo} {call : LayoutCall}

/-- What it means that a block comes into use, for those who know it by its address. -/
theorem Owns.brings (h : heap.Owns live blocks chains) (hgrants : heap.Grants after kept info)
    (hkept : (heap.addresses kept).Perm left) (hbefore : ∀ x ∈ kept, x ∈ held blocks)
    (hapart : ∀ x ∈ held blocks, ∀ offset, x.Covers offset → ¬ info.Covers offset) :
    (∃ blocks chains, after.Owns (after.pool.arena.address info.block :: left) blocks chains) ∧
      after.pool.arena.address info.block ∉ live ∧
      after.pool.usableSize (after.pool.arena.address info.block) = .ok (info.size - 16) ∧
      ∀ address ∈ left, heap.Preserves after address := by
  have hcontinues := hgrants.continues_of_apart hkept hbefore hapart
  refine ⟨?_, fun haddress => ?_, ?_, fun address haddress => ?_⟩
  · obtain ⟨infos, links, hafter, -⟩ := hcontinues
    exact ⟨infos, links, hafter⟩
  · obtain ⟨other, hother, heq⟩ := h.exists_held haddress
    rw [Arena.address, Arena.address, hgrants.carries.base_eq] at heq
    have hblock : other.block.offset = info.block.offset := Nat.add_left_cancel heq
    have hlarge := (h.sound.orderly.represents.laid.liesIn (mem_held.1 hother).1).size_ge
    have hroom := hgrants.liesIn.size_ge
    refine hapart other hother other.block.offset ?_ ?_ <;>
      simp only [BlockInfo.Covers, BlockInfo.stop] <;> omega
  · obtain ⟨infos, links, hafter, hheld⟩ := hgrants.sound
    exact hafter.usableSize_eq (mem_held.1 (hheld.mem_iff.2 List.mem_cons_self)).1
  · obtain ⟨x, hx, rfl⟩ := List.mem_map.1 (hkept.mem_iff.2 haddress)
    exact hcontinues.preserves h.sound (hbefore x hx) hx

/-- A call that is granted a block is answered as promised, if the block starts at a multiple of the
    alignment, is large enough and holds what it should. -/
theorem Owns.fulfils_of_grants (h : heap.Owns live blocks chains)
    (hgrants : heap.Grants after kept info) (hkept : (heap.addresses kept).Perm left)
    (hbefore : ∀ x ∈ kept, x ∈ held blocks)
    (hapart : ∀ x ∈ held blocks, ∀ offset, x.Covers offset → ¬ info.Covers offset)
    (hlive : call.live (some (after.pool.arena.address info.block)) live =
      after.pool.arena.address info.block :: left)
    (haligned : after.pool.arena.address info.block % call.layout.align = 0)
    (hlarge : call.bytes + 16 ≤ info.size)
    (hzeroed : ∀ layout, call = .allocateZeroed layout → ∀ i < layout.size,
      after.pool.arena.byte (after.pool.arena.address info.block + i) = 0)
    (hmoved : ∀ old layout size, call = .resize old layout size → ∀ i < min layout.size size,
      after.pool.arena.byte (after.pool.arena.address info.block + i) =
        heap.pool.arena.byte (old + i)) :
    heap.Fulfils live call (some (after.pool.arena.address info.block)) after ∧
      ∃ blocks chains, after.Owns
        (call.live (some (after.pool.arena.address info.block)) live) blocks chains := by
  obtain ⟨⟨infos, links, hafter⟩, hfresh, husable, hpreserves⟩ :=
    h.brings hgrants hkept hbefore hapart
  rw [← hlive] at hafter
  refine ⟨⟨?_, ?_, ?_, hafter.inUseAt, hafter.separates, fun address haddress hstays => ?_, ?_, ?_,
    nofun⟩, infos, links, hafter⟩
  · rintro _ ⟨⟩
    exact haligned
  · rintro _ ⟨⟩
    exact hfresh
  · rintro _ ⟨⟩
    exact ⟨_, husable, by omega⟩
  · rw [hlive] at hstays
    rcases List.mem_cons.1 hstays with rfl | hleft
    · exact absurd haddress hfresh
    · exact hpreserves address hleft
  · rintro layout hcall _ ⟨⟩
    exact hzeroed layout hcall
  · rintro old layout size hcall _ ⟨⟩
    exact hmoved old layout size hcall

/-- A call that is refused is answered as promised, if it changes nothing. -/
theorem Owns.fulfils_of_refuses (h : heap.Owns live blocks chains) (hrefuses : heap.Refuses after)
    (hlive : call.live none live = live) :
    heap.Fulfils live call none after ∧
      ∃ blocks chains, after.Owns (call.live none live) blocks chains := by
  have hcontinues := hrefuses.continues h
  obtain ⟨infos, links, hafter, -⟩ := id hcontinues
  rw [← hlive] at hafter
  refine ⟨⟨nofun, nofun, nofun, hafter.inUseAt, hafter.separates, fun address haddress _ => ?_,
    nofun, nofun, fun _ _ => hrefuses⟩, infos, links, hafter⟩
  obtain ⟨info, hinfo, rfl⟩ := h.exists_held haddress
  exact hcontinues.preserves h.sound hinfo hinfo

omit [GrowsInPlace ρ] in
/-- Small alignments need no more than a request for the size. -/
theorem runOn_allocateAligned_of_le {align : Nat} (hpower : IsPowerOfTwo align)
    (hsmall : align ≤ alignment) (size : Nat) (heap : Heap ρ) (log : Array Event) :
    (allocateAligned align size).runOn heap log = (allocate size).runOn heap log := by
  rw [allocateAligned, allocate, RequestM.runOn_granted, RequestM.runOn_granted,
    requestAligned_of_le hpower hsmall]

theorem Sound.allocateAligned_spec (h : heap.Sound blocks chains) (align size : Nat)
    (log : Array Event) :
    (∃ after log', (allocateAligned align size).runOn heap log = .ok (none, after) log' ∧
      heap.Refuses after) ∨
    ∃ info after log', (allocateAligned align size).runOn heap log =
        .ok (some (after.pool.arena.address info.block), after) log' ∧
      heap.Grants after (held blocks) info ∧ size + 16 ≤ info.size ∧
      after.pool.arena.address info.block % align = 0 := by
  rcases h.requestAligned_spec align size log with
    ⟨error, after, log', hrun, hrefuses⟩ |
    ⟨needed, info, after, log', hneeded, hrun, hgrants, hlarge, haligned⟩
  · refine .inl ⟨after, log', ?_, hrefuses⟩
    rw [allocateAligned, RequestM.runOn_granted, hrun]
    rfl
  · obtain ⟨-, -, hroom, -⟩ := blockSize_spec hneeded
    refine .inr ⟨info, after, log', ?_, hgrants, by omega, haligned⟩
    rw [allocateAligned, RequestM.runOn_granted, hrun]
    rfl

namespace Owns

/-- A request for an alignment is answered as a call by layout is. -/
theorem allocateAligned_fulfils (h : heap.Owns live blocks chains) (align size : Nat)
    (log : Array Event) :
    ∃ answer after log',
      (allocateAligned align size).runOn heap log = .ok (answer, after) log' ∧
      heap.Fulfils live (.allocate ⟨size, align⟩) answer after ∧
      ∃ blocks chains,
        after.Owns ((LayoutCall.allocate ⟨size, align⟩).live answer live) blocks chains := by
  rcases h.sound.allocateAligned_spec align size log with
    ⟨after, log', hrun, hrefuses⟩ | ⟨info, after, log', hrun, hgrants, hlarge, haligned⟩
  · exact ⟨none, after, log', hrun, h.fulfils_of_refuses hrefuses rfl⟩
  · refine ⟨_, after, log', hrun, h.fulfils_of_grants hgrants h.perm (fun _ => id)
      (fun _ hx _ => hgrants.apart hx) rfl haligned hlarge nofun nofun⟩

variable (h : heap.Owns live blocks chains) {layout : Layout} (hpower : IsPowerOfTwo layout.align)
  (log : Array Event)

include h hpower

/-- Memory for a layout, of small alignment or large. -/
theorem serve_allocate :
    ∃ answer after log', (LayoutCall.allocate layout).serve.runOn heap log =
        .ok (answer, after) log' ∧
      heap.Fulfils live (.allocate layout) answer after ∧
      ∃ blocks chains,
        after.Owns ((LayoutCall.allocate layout).live answer live) blocks chains := by
  have hserve : (LayoutCall.allocate layout).serve.runOn heap log =
      (allocateAligned layout.align layout.size).runOn heap log := by
    by_cases hsmall : layout.align ≤ alignment
    · rw [LayoutCall.serve, if_pos hsmall, runOn_allocateAligned_of_le hpower hsmall]
    · rw [LayoutCall.serve, if_neg hsmall]
  rw [hserve]
  exact h.allocateAligned_fulfils layout.align layout.size log

/-- Zeros for a layout. A request for them writes them itself; behind a larger alignment they are
    written afterwards. -/
theorem serve_allocateZeroed :
    ∃ answer after log', (LayoutCall.allocateZeroed layout).serve.runOn heap log =
        .ok (answer, after) log' ∧
      heap.Fulfils live (.allocateZeroed layout) answer after ∧
      ∃ blocks chains,
        after.Owns ((LayoutCall.allocateZeroed layout).live answer live) blocks chains := by
  by_cases hsmall : layout.align ≤ alignment
  · rw [LayoutCall.serve, if_pos hsmall, allocateZeroed, RequestM.runOn_granted]
    rcases h.sound.requestZeroed_spec 1 layout.size log with
      ⟨error, after, log', hrun, hrefuses⟩ |
      ⟨needed, info, after, log', hneeded, hrun, hgrants, hlarge, hzeros⟩
    · rw [hrun]
      exact ⟨none, after, log', rfl, h.fulfils_of_refuses hrefuses rfl⟩
    · rw [Nat.one_mul] at hneeded hzeros
      obtain ⟨-, -, hroom, -⟩ := blockSize_spec hneeded
      rw [hrun]
      refine ⟨_, after, log', rfl, h.fulfils_of_grants hgrants h.perm (fun _ => id)
        (fun _ hx _ => hgrants.apart hx) rfl (hgrants.address_mod hpower hsmall)
        (Nat.le_trans hroom hlarge) ?_ nofun⟩
      rintro _ ⟨⟩
      exact hzeros
  · rw [LayoutCall.serve, if_neg hsmall]
    rcases h.sound.allocateAligned_spec layout.align layout.size log with
      ⟨after, log', hrun, hrefuses⟩ | ⟨info, after, log', hrun, hgrants, hlarge, haligned⟩
    · refine ⟨none, after, log', ?_, h.fulfils_of_refuses hrefuses rfl⟩
      simp only [HeapM.runOn_bind, hrun, HeapM.runOn_pure]
    · obtain ⟨hzeroed, hzeros⟩ := hgrants.zero_spec hlarge
      refine ⟨_, _, log', ?_, h.fulfils_of_grants hzeroed h.perm (fun _ => id)
        (fun _ hx _ => hzeroed.apart hx) rfl haligned hlarge ?_ nofun⟩
      · simp only [HeapM.runOn_bind, hrun, HeapM.runOn_modify, HeapM.runOn_pure]
        rfl
      · rintro _ ⟨⟩
        exact hzeros

omit hpower in
theorem serve_release {old : Nat} (hold : old ∈ live) :
    ∃ answer after log', (LayoutCall.release old layout).serve.runOn heap log =
        .ok (answer, after) log' ∧
      heap.Fulfils live (.release old layout) answer after ∧
      ∃ blocks chains,
        after.Owns ((LayoutCall.release old layout).live answer live) blocks chains := by
  obtain ⟨info, kept, hheld, rfl, hkept⟩ := h.exists_info hold
  obtain ⟨after, hrun, hfrees⟩ := h.sound.release_spec hheld log
  have hbefore : ∀ x ∈ kept, x ∈ held blocks := fun x hx =>
    hheld.mem_iff.2 (List.mem_cons_of_mem _ hx)
  have hcontinues := hfrees.continues hkept hbefore
  obtain ⟨infos, links, hafter, -⟩ := id hcontinues
  refine ⟨none, after, log, ?_, ⟨nofun, nofun, nofun, hafter.inUseAt, hafter.separates,
    fun address _ hstays => ?_, nofun, nofun, fun hcall => absurd rfl (hcall _ _)⟩,
    infos, links, hafter⟩
  · simp only [LayoutCall.serve, HeapM.runOn_bind, hrun, HeapM.runOn_pure]
  · obtain ⟨x, hx, rfl⟩ := List.mem_map.1 (hkept.mem_iff.2 hstays)
    exact hcontinues.preserves h.sound (hbefore x hx) hx

/-- Moving memory of a layout. Small alignments move all that fits, larger ones what the layout
    names: either way the bytes of the layout that fit. -/
theorem serve_resize {old size usable : Nat} (hold : old ∈ live) (hsize : size ≠ 0)
    (husable : heap.pool.usableSize old = .ok usable) (hroom : layout.size ≤ usable) :
    ∃ answer after log', (LayoutCall.resize old layout size).serve.runOn heap log =
        .ok (answer, after) log' ∧
      heap.Fulfils live (.resize old layout size) answer after ∧
      ∃ blocks chains,
        after.Owns ((LayoutCall.resize old layout size).live answer live) blocks chains := by
  obtain ⟨info, kept, hheld, rfl, hkept⟩ := h.exists_info hold
  have hinfo := (mem_held.1 (hheld.mem_iff.2 List.mem_cons_self)).1
  have hlies := h.sound.orderly.represents.laid.liesIn hinfo
  have hlarge := hlies.size_ge
  have hbefore : ∀ x ∈ kept, x ∈ held blocks := fun x hx =>
    hheld.mem_iff.2 (List.mem_cons_of_mem _ hx)
  obtain rfl : info.size - 16 = usable := by
    simpa [h.sound.usableSize_eq hinfo] using husable
  by_cases hsmall : layout.align ≤ alignment
  · rw [LayoutCall.serve, if_pos hsmall]
    obtain ⟨answer, after, log', hrun, hcases⟩ := h.sound.resize_spec hheld size log
    rcases hcases with
      ⟨rfl, -, hrefuses⟩ | ⟨-, hzero, -⟩ | ⟨fresh, rfl, hgrants, hapart, hfits, hbytes, -⟩
    · exact ⟨none, after, log', hrun, h.fulfils_of_refuses hrefuses rfl⟩
    · exact absurd hzero hsize
    · refine ⟨_, after, log', hrun, h.fulfils_of_grants hgrants hkept hbefore hapart rfl
        (hgrants.address_mod hpower hsmall) hfits nofun ?_⟩
      rintro _ _ _ ⟨⟩ i hi
      exact hbytes i (by omega)
  · rw [LayoutCall.serve, if_neg hsmall]
    rcases h.sound.allocateAligned_spec layout.align size log with
      ⟨after, log', hrequest, hrefuses⟩ |
      ⟨fresh, middle, log', hrequest, hgrants, hfits, haligned⟩
    · exact ⟨none, after, log', runOn_relocate_of_none hrequest _ _,
        h.fulfils_of_refuses hrefuses rfl⟩
    · have hsource : min layout.size size + 16 ≤ info.size := by omega
      have htarget : min layout.size size + 16 ≤ fresh.size := by omega
      obtain ⟨after, hrun, hmoved, hbytes, -⟩ :=
        (hgrants.perm hheld).relocate_spec hlies hrequest hsource htarget
      have hsame : after.pool.arena.address fresh.block =
          middle.pool.arena.address fresh.block := by
        rw [Arena.address, Arena.address, hmoved.carries.base_eq, hgrants.carries.base_eq]
      refine ⟨_, after, log', hrun, h.fulfils_of_grants hmoved hkept hbefore
        (fun _ hx _ => hgrants.apart hx) rfl (hsame ▸ haligned) hfits nofun ?_⟩
      rintro _ _ _ ⟨⟩ i hi
      exact hbytes i hi

end Owns

/-- A heap keeps what a valid call by layout promises. -/
theorem Owns.serve_spec (h : heap.Owns live blocks chains) (hvalid : call.Valid heap live)
    (log : Array Event) :
    ∃ answer after log', call.serve.runOn heap log = .ok (answer, after) log' ∧
      heap.Fulfils live call answer after ∧
      ∃ blocks chains, after.Owns (call.live answer live) blocks chains := by
  cases call with
  | allocate layout => exact h.serve_allocate hvalid.power log
  | allocateZeroed layout => exact h.serve_allocateZeroed hvalid.power log
  | resize old layout size =>
    obtain ⟨usable, husable, hroom⟩ := hvalid.room old rfl
    have hsize : size ≠ 0 := Nat.pos_iff_ne_zero.1 (hvalid.bytes_pos nofun)
    exact h.serve_resize hvalid.power log (hvalid.live old rfl) hsize husable hroom
  | release old layout => exact h.serve_release log (hvalid.live old rfl)

end Heap

end BoundaryTag
