import BoundaryTag.Proofs.Run.Step

namespace BoundaryTag

namespace Pool

/-- A block whose header, or the word that is left of it, lies in none of the blocks in use. -/
structure Idle (pool : Pool) (block : Block) (blocks : List BlockInfo) : Prop where
  aligned : block.offset % 16 = 0
  inside : block.offset < pool.arena.len
  honest : pool.Honest (block.offset - 8)
  apart : ∀ info ∈ held blocks, ¬ info.Covers (block.offset - 8)

variable {pool : Pool} {block : Block} {blocks : List BlockInfo} {address : Nat} {tag : Tag}

/-- The word of an idle header is not flagged. -/
theorem Idle.allocated_eq (h : pool.Idle block blocks) (hlaid : pool.arena.Laid blocks) :
    (Tag.mk (pool.arena.memory.load (block.offset - 8))).allocated = false := by
  refine Bool.eq_false_iff.2 fun hflag => ?_
  obtain ⟨info, hinfo, hheader⟩ := (honest_iff hlaid).1 h.honest hflag
  have hfits := hlaid.fits (mem_held.1 hinfo).1
  exact h.apart info hinfo (hfits.covers_tag (.inl hheader.symm))

/-- A header without the flag ends a release before anything is written. -/
theorem release_of_free (hblock : pool.arena.blockAt? address = some block)
    (hheader : pool.arena.header block = .ok tag) (hfree : tag.allocated = false) :
    pool.release address = match pool.arena.build with
      | .checked => .error (.doubleFree address)
      | .unchecked => .ok pool := by
  simp only [release, hblock, Option.isSome_some, Build.require_eq_ok, hheader, ok_bind]
  cases hbuild : pool.arena.build with
  | checked => simp [Build.require, hfree]
  | unchecked => simp [Build.require, Tag.free, hfree, pure_eq_ok]

end Pool

namespace Heap

variable {ρ : Type} [Region ρ]

/-- The block at `q` spans the word before `p`: it is in its header, its payload or its footer. -/
def Spans (heap : Heap ρ) (q p : Nat) : Prop :=
  ∃ usable, heap.pool.usableSize q = .ok usable ∧ q ≤ p ∧ p ≤ q + usable + 8

instance (heap : Heap ρ) (q p : Nat) : Decidable (heap.Spans q p) :=
  match hsize : heap.pool.usableSize q with
  | .ok usable => decidable_of_iff (q ≤ p ∧ p ≤ q + usable + 8) (by simp [Spans, hsize])
  | .error _ => .isFalse (by simp [Spans, hsize])

variable [GrowsInPlace ρ] {heap after : Heap ρ} {block : Block}
  {blocks infos kept : List BlockInfo} {chains : Chains} {info : BlockInfo}

/-- A block that covers the word before an address spans it. -/
theorem Sound.spans (h : heap.Sound blocks chains) (hinfo : info ∈ held blocks)
    (haligned : block.offset % 16 = 0) (hcovers : info.Covers (block.offset - 8)) :
    heap.Spans (heap.pool.arena.address info.block) (heap.pool.arena.address block) := by
  have hmem := (mem_held.1 hinfo).1
  have hfits := h.orderly.represents.laid.fits hmem
  have haligned' := hfits.aligned
  have hmod := hfits.size_mod
  have hsize := hfits.size_ge
  have hpos := block.offset_pos
  obtain ⟨hlow, hhigh⟩ := hcovers
  unfold BlockInfo.stop at hhigh
  refine ⟨_, h.usableSize_eq hmem, ?_⟩
  unfold Arena.address
  omega

/-- An honest header is idle as soon as no block in use covers it. -/
theorem Carries.idle (h : heap.Carries after kept (held infos)) (haligned : block.offset % 16 = 0)
    (hinside : block.offset < heap.pool.arena.len)
    (hhonest : heap.pool.Honest (block.offset - 8))
    (hapart : ∀ x ∈ held infos, ¬ x.Covers (block.offset - 8)) :
    after.pool.Idle block infos := by
  have hpos := block.offset_pos
  refine ⟨haligned, hinside.trans_le h.len_le, ?_, hapart⟩
  rcases h.honest (block.offset - 8) (by omega) (by omega) hhonest with hkept | ⟨x, hx, hholds⟩
  · exact hkept
  · exact absurd hholds.covers (hapart x hx)

end Heap

section Runs

variable {ρ : Type} [Region ρ] [GrowsInPlace ρ] {build : Build} {region : ρ} {heap : Heap ρ}
  {live : List Nat} {p : Nat}

/-- The heaps of runs in which the memory at `p` was released and no answer since then is the
    address of a block that spans the word before `p`. -/
inductive Released (build : Build) (region : ρ) (p : Nat) : Heap ρ → List Nat → Prop
  | release {heap after : Heap ρ} {live : List Nat} {call : Call} {answer : Option Nat}
    {log log' : Array Event} :
    Reachable build region heap live → call.Valid heap live →
    call.run.runOn heap log = .ok (answer, after) log' →
    p ∈ live → p ∉ call.live answer live →
    Released build region p after (call.live answer live)
  | call {heap after : Heap ρ} {live : List Nat} {call : Call} {answer : Option Nat}
    {log log' : Array Event} :
    Released build region p heap live → call.Valid heap live →
    call.run.runOn heap log = .ok (answer, after) log' →
    (∀ q ∈ answer, ¬ after.Spans q p) →
    Released build region p after (call.live answer live)

theorem Released.of_replayCall {state after : Heap ρ × List Nat} {call : Call}
    (h : Released build region p state.1 state.2) (hcall : replayCall state call = some after)
    (hspans : ∀ q ∈ after.2, ¬ after.1.Spans q p) :
    Released build region p after.1 after.2 := by
  obtain ⟨hvalid, answer, log, hrun, hlive⟩ := replayCall_spec hcall
  have hanswer : ∀ q ∈ answer, q ∈ after.2 := by
    rintro q rfl
    rw [← hlive]
    exact List.mem_cons_self
  exact hlive ▸ .call h hvalid hrun fun q hq => hspans q (hanswer q hq)

theorem Released.reachable (h : Released build region p heap live) :
    Reachable build region heap live := by
  induction h with
  | release hbefore hvalid hcall => exact .call hbefore hvalid hcall
  | call _ hvalid hcall _ ih => exact .call ih hvalid hcall

/-- What is left of a released header stays idle. -/
theorem Released.idle (h : Released build region p heap live) :
    ∃ blocks chains block, heap.Owns live blocks chains ∧
      heap.pool.arena.address block = p ∧ heap.pool.Idle block blocks := by
  induction h with
  | @release heap after live call answer log _ hbefore hvalid hcall hin hout =>
    obtain ⟨blocks, chains, howns⟩ := hbefore.owns
    obtain ⟨info, hinfo, rfl⟩ := howns.exists_held hin
    obtain ⟨kept, infos, links, hafter, -, hcarries, hnew⟩ := howns.continues_of_run hvalid hcall
    have hlaid := howns.sound.orderly.represents.laid
    have hmem := (mem_held.1 hinfo).1
    have hfits := hlaid.fits hmem
    have hoffset := hfits.offset_ge
    have hheader : info.block.offset - 8 + 8 = info.block.offset := by omega
    have hcovers := hfits.covers_tag (.inl hheader)
    have hhonest : heap.pool.Honest (info.block.offset - 8) :=
      (Pool.honest_iff hlaid).2 fun _ => ⟨info, hinfo, hheader.symm⟩
    refine ⟨infos, links, info.block, hafter, hcarries.address_eq _,
      hcarries.idle hfits.aligned (hlaid.offset_lt hmem) hhonest fun x hx hcovered => ?_⟩
    rcases hnew x hx with hold | ⟨-, hapart⟩
    -- A block that covers the released header and was in use before is the one released.
    · obtain rfl := hlaid.tiles.eq_of_covers (mem_held.1 hold).1 hmem hcovered hcovers
      rw [← hcarries.address_eq] at hout
      exact hout (hafter.perm.mem_iff.1 (List.mem_map_of_mem hx))
    · exact hapart info hinfo _ hcovers hcovered
  | @call heap after live call answer log _ _ hvalid hcall hspans ih =>
    obtain ⟨blocks, chains, block, howns, rfl, hidle⟩ := ih
    obtain ⟨kept, infos, links, hafter, -, hcarries, hnew⟩ := howns.continues_of_run hvalid hcall
    refine ⟨infos, links, block, hafter, hcarries.address_eq _,
      hcarries.idle hidle.aligned hidle.inside hidle.honest fun x hx hcovered => ?_⟩
    rcases hnew x hx with hold | ⟨hanswer, -⟩
    · exact hidle.apart x hold hcovered
    · refine hspans _ hanswer ?_
      rw [← hcarries.address_eq]
      exact hafter.sound.spans hx hidle.aligned hcovered

/-- Until a block that spans the word before a released address comes into use, that word reads as
    free. Releasing the address again is a fault in a checked build, and in an unchecked one it
    changes nothing. -/
theorem doubleFree_of_released (h : Released build region p heap live) :
    (∃ tag, heap.pool.arena.tagAt (p - 8 - heap.pool.arena.base) = .ok tag ∧
      tag.allocated = false) ∧
    ∀ log, (Heap.release (some p)).runOn heap log = match build with
      | .checked => .error (.doubleFree p) log
      | .unchecked => .ok ((), heap) log := by
  obtain ⟨blocks, chains, block, howns, rfl, hidle⟩ := h.idle
  have hpos := block.offset_pos
  have haligned := hidle.aligned
  have hinside := hidle.inside
  have hfree := hidle.allocated_eq howns.sound.orderly.represents.laid
  have hplace : heap.pool.arena.address block - 8 - heap.pool.arena.base = block.offset - 8 := by
    unfold Arena.address
    omega
  refine ⟨⟨_, ?_, hfree⟩, fun log => ?_⟩
  · rw [hplace]
    exact Arena.tagAt_eq (by omega) (by omega)
  · have hrelease := Pool.release_of_free (Arena.blockAt?_address haligned hinside)
      (Arena.header_eq_load (by omega) (by omega)) hfree
    rw [h.reachable.build_eq] at hrelease
    cases build with
    | checked =>
      simp only [Heap.release, HeapM.runOn_bind, HeapM.runOn_get, HeapM.runOn_liftM, hrelease]
    | unchecked =>
      simp only [Heap.release, HeapM.runOn_bind, HeapM.runOn_get, HeapM.runOn_liftM, hrelease,
        HeapM.runOn_set]

/-- The released block is merged with both neighbours, and then the merged block is cut before the
    header that was released. -/
theorem doubleFree_after_sampleCalls : ∃ heap,
    Released .checked sampleRegion 66112 heap [65824, 65696] ∧
    (Heap.release (some 66112)).runOn heap #[] = .error (.doubleFree 66112) #[] := by
  have heval : ((replay .checked sampleRegion sampleCalls).bind fun start =>
      (replayCall start (.release (some 66112))).bind fun freed =>
      (replayCall freed (.release (some 66048))).bind fun merged =>
      (replayCall merged (.allocate 200)).map fun cut =>
        (start.2, freed.2, cut.2, [merged, cut].all fun state =>
          state.2.all fun q => !state.1.Spans q 66112)) =
      some ([66112, 66048, 65696], [66048, 65696], [65824, 65696], true) := by
    decide +kernel
  obtain ⟨start, hstart, heval⟩ := Option.bind_eq_some_iff.1 heval
  obtain ⟨freed, hfreed, heval⟩ := Option.bind_eq_some_iff.1 heval
  obtain ⟨merged, hmerged, heval⟩ := Option.bind_eq_some_iff.1 heval
  obtain ⟨⟨heap, live⟩, hcut, hstate⟩ := Option.map_eq_some_iff.1 heval
  simp only [Prod.mk.injEq, List.all_cons, List.all_nil, Bool.and_true, Bool.and_eq_true,
    List.all_eq_true, Bool.not_eq_true', decide_eq_false_iff_not] at hstate
  obtain ⟨hlive, hleft, rfl, hspansMerged, hspansCut⟩ := hstate
  have hreachable := reachable_of_replay hstart
  have hreleased : Released .checked sampleRegion 66112 freed.1 freed.2 := by
    obtain ⟨hvalid, answer, log, hrun, hafter⟩ := replayCall_spec hfreed
    refine hafter ▸ .release hreachable hvalid hrun ?_ ?_
    · rw [hlive]
      decide
    · rw [hafter, hleft]
      decide
  have hreleased := (hreleased.of_replayCall hmerged hspansMerged).of_replayCall hcut hspansCut
  exact ⟨heap, hreleased, (doubleFree_of_released hreleased).2 #[]⟩

end Runs

end BoundaryTag
