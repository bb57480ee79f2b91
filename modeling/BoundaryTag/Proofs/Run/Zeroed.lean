import BoundaryTag.Proofs.FreeList.Edits
import BoundaryTag.Proofs.Run.Payload
import BoundaryTag.Proofs.Run.Undo

namespace BoundaryTag

namespace Heap

variable {ρ : Type} [Region ρ]

/-- The heap `zeroed` is `plain` with zeros in the `count` bytes from `address` on, which a caller
    may use. No other byte differs, so that blocks, tags, links and lists are the same. -/
structure Clears (plain zeroed : Heap ρ) (address count : Nat) : Prop where
  room : ∃ usable, plain.pool.usableSize address = .ok usable ∧ count ≤ usable
  zeros : ∀ i < count, zeroed.pool.arena.byte (address + i) = 0
  outside : ∀ offset, plain.pool.arena.base + offset < address ∨
      address + count ≤ plain.pool.arena.base + offset →
    zeroed.pool.arena.memory.byte offset = plain.pool.arena.memory.byte offset
  region_eq : zeroed.region = plain.region
  arena_eq : zeroed.pool.arena = { plain.pool.arena with memory := zeroed.pool.arena.memory }
  index_eq : zeroed.pool.index = plain.pool.index
  blocks : ∃ blocks, plain.pool.blocks = .ok blocks ∧ zeroed.pool.blocks = .ok blocks ∧
    ∀ offset, plain.pool.Reserves blocks offset →
      zeroed.pool.arena.memory.load offset = plain.pool.arena.memory.load offset
  lists : ∃ chains, plain.pool.index.Mirrors plain.pool.arena chains ∧
    zeroed.pool.index.Mirrors zeroed.pool.arena chains

variable [GrowsInPlace ρ] {heap plain : Heap ρ} {blocks kept : List BlockInfo} {chains : Chains}
  {info : BlockInfo} {count : Nat}

/-- What the heap keeps for itself lies in words. -/
theorem Sound.mod_of_reserves (h : heap.Sound blocks chains) {offset : Nat}
    (hreserved : heap.pool.Reserves blocks offset) : offset % 8 = 0 := by
  have hlaid := h.orderly.represents.laid
  rcases hreserved with hfront | hend | ⟨x, hx, htag | ⟨-, hlink⟩⟩
  · exact (hlaid.fits_prologue.tag_place hfront).1
  · have hmod := hlaid.len_mod
    omega
  · exact ((hlaid.fits hx).tag_place htag).1
  · have haligned := (hlaid.fits hx).aligned
    rcases hlink with rfl | rfl <;> omega

/-- Clearing bytes for use in a block that was granted changes nothing that the heap keeps for
    itself. -/
theorem Grants.clears (h : heap.Grants plain kept info) (hroom : count + 16 ≤ info.size) :
    plain.Clears
      { plain with
        pool.arena := plain.pool.arena.zero (plain.pool.arena.address info.block) count }
      (plain.pool.arena.address info.block) count := by
  obtain ⟨infos, links, hplain, hheld⟩ := h.sound
  have hinfo : info ∈ held infos := hheld.mem_iff.2 List.mem_cons_self
  have hlies := h.liesIn
  have hplace : plain.pool.arena.address info.block - plain.pool.arena.base = info.block.offset :=
    Nat.add_sub_cancel_left _ _
  have hchange := hlies.rewrites_zero plain.pool.arena.memory hroom
  have hzeroed := (hplain.of_payload hheld hchange).1
  have hmemory : (plain.pool.arena.zero (plain.pool.arena.address info.block) count).memory =
      plain.pool.arena.memory.zero info.block.offset count := by
    rw [Arena.zero, hplace]
  refine ⟨⟨_, hplain.usableSize_eq (mem_held.1 hinfo).1, by omega⟩, (h.zero_spec hroom).2,
    fun offset houtside => ?_, rfl, rfl, rfl,
    ⟨infos, Pool.blocks_eq hplain.orderly.represents.laid, ?_, fun offset hreserved => ?_⟩,
    links, hplain.orderly.represents.threads.mirrors, ?_⟩
  · rw [Arena.address] at houtside
    rw [hmemory, Memory.byte_zero, if_neg (by omega)]
  · rw [Arena.zero, hplace]
    exact Pool.blocks_eq hzeroed.orderly.represents.laid
  · have hapart := hplain.apart_of_reserves hinfo hreserved
    rw [hmemory]
    refine hchange.load_eq (hplain.mod_of_reserves hreserved) fun word hholds => ?_
    simp only [BlockInfo.HoldsAt] at hholds
    omega
  · rw [Arena.zero, hplace]
    exact hzeroed.orderly.represents.threads.mirrors

end Heap

section Runs

variable {ρ : Type} [Region ρ] [GrowsInPlace ρ] {build : Build} {region : ρ} {heap : Heap ρ}
  {live : List Nat}

/-- A request for zeros does not fail. If it is granted, the plain request for as many bytes would
    have been granted the same address, and the zeros are all that it would have left otherwise. -/
theorem zeroed_of_reachable (h : Reachable build region heap live) (count size : Nat)
    (log : Array Event) :
    ∃ answer after log', (Heap.requestZeroed count size).runOn heap log =
        .ok (answer, after) log' ∧
      ∀ address, answer = .ok address →
        ∃ plain, (Heap.request (count * size)).runOn heap log = .ok (.ok address, plain) log' ∧
          plain.Clears after address (count * size) := by
  obtain ⟨blocks, chains, howns⟩ := h.owns
  rcases howns.sound.requestZeroed_spec count size log with
    ⟨error, after, log', hrun, -⟩ | ⟨_, _, after, log', -, hrun, -⟩
  · exact ⟨_, after, log', hrun, nofun⟩
  · refine ⟨_, after, log', hrun, fun address haddress => ?_⟩
    rw [haddress] at hrun
    obtain ⟨plain, hplain, rfl⟩ := Heap.runOn_request_of_zeroed hrun
    refine ⟨plain, hplain, ?_⟩
    rcases howns.sound.request_spec (count * size) log with
      ⟨error, _, _, hrequest, -⟩ | ⟨needed, info, _, _, hneeded, hrequest, hgrants, hlarge⟩
    · rw [hplain] at hrequest
      cases hrequest
    · rw [hplain] at hrequest
      cases hrequest
      obtain ⟨-, -, hroom, -⟩ := blockSize_spec hneeded
      exact hgrants.clears (Nat.le_trans hroom hlarge)

/-- A buffer that was used before, and holds bytes at two places: in what a heap starts with, and
    behind that. -/
def wornMemory : Memory := (({} : Memory).fill 360 40 fun _ => 90).fill 4460 40 fun _ => 91

/-- A block is filled with ones and released. -/
def staleCalls : List Call :=
  [.allocate 100, .write 65568 0 100 fun _ => 255, .release (some 65568)]

/-- More is asked for than the arena holds. What is granted was in use before, was always free or is
    new in the arena, and there are bytes other than zero in each part of it. -/
theorem zeroed_after_staleCalls : ∃ heap after plain log,
    replay .checked sampleBuffer staleCalls wornMemory = some (heap, []) ∧
    heap.pool.arena.len = 4128 ∧
    [65618, 65900, 70000].map heap.pool.arena.byte = [255, 90, 91] ∧
    (Heap.requestZeroed 10 500).runOn heap #[] = .ok (.ok 65568, after) log ∧
    (Heap.request (10 * 500)).runOn heap #[] = .ok (.ok 65568, plain) log ∧
    plain.Clears after 65568 (10 * 500) := by
  have heval : (replay .checked sampleBuffer staleCalls wornMemory).map (fun state => (state.2,
      state.1.pool.arena.len, [65618, 65900, 70000].map state.1.pool.arena.byte,
      (Heap.requestZeroed 10 500).granted.answerOn state.1)) =
      some ([], 4128, [255, 90, 91], some (some 65568)) := by
    decide +kernel
  obtain ⟨heap, hreplay, hvalues⟩ := exists_of_replay heval
  obtain ⟨hlen, hvalues⟩ := Prod.mk.inj hvalues
  obtain ⟨hstale, hanswer⟩ := Prod.mk.inj hvalues
  obtain ⟨answer, after, log, hrun, hzeroed⟩ :=
    zeroed_of_reachable (reachable_of_replay hreplay) 10 500 #[]
  obtain rfl := HeapM.eq_ok_of_answerOn hanswer hrun
  obtain ⟨plain, hplain, hclears⟩ := hzeroed _ rfl
  exact ⟨heap, after, plain, log, hreplay, hlen, hstale, hrun, hplain, hclears⟩

end Runs

end BoundaryTag
