import BoundaryTag.Proofs.Run.Invariant

namespace BoundaryTag

open Heap

variable {ρ : Type} [Region ρ] [GrowsInPlace ρ] {heap after : Heap ρ} {live : List Nat}
  {blocks : List BlockInfo} {chains : Chains} {info : BlockInfo} {call : Call}
  {build : Build} {region : ρ}

theorem Heap.Sound.usableSize_eq (h : heap.Sound blocks chains) (hinfo : info ∈ blocks) :
    heap.pool.usableSize (heap.pool.arena.address info.block) = .ok (info.size - 16) := by
  obtain ⟨tag, hheader, htag, -⟩ := h.orderly.represents.header_eq hinfo
  rw [Pool.usableSize, h.orderly.represents.laid.blockAt?_address hinfo]
  simp only [Arena.usableBytes, hheader, ok_bind, htag]
  rfl

omit [Region ρ] [GrowsInPlace ρ] in
/-- Other blocks have other addresses. -/
theorem mem_of_address_ne {kept : List BlockInfo} (hheld : (held blocks).Perm (info :: kept))
    {other : BlockInfo} (hother : other ∈ held blocks)
    (hne : heap.pool.arena.address other.block ≠ heap.pool.arena.address info.block) :
    other ∈ kept := by
  rcases List.mem_cons.1 (hheld.mem_iff.1 hother) with rfl | hkept
  · exact absurd rfl hne
  · exact hkept

/-- Bytes that a caller writes to a block in use. -/
theorem Heap.Owns.fill_spec (h : heap.Owns live blocks chains) {kept : List BlockInfo}
    (hheld : (held blocks).Perm (info :: kept)) {start count : Nat}
    (hroom : start + count ≤ info.size - 16) (f : Nat → UInt8) :
    heap.Continues
      { heap with pool.arena :=
          heap.pool.arena.fill (heap.pool.arena.address info.block + start) count f }
      none live (held blocks) kept := by
  have hinfo := hheld.mem_iff.2 List.mem_cons_self
  have hlies := h.sound.orderly.represents.laid.liesIn (mem_held.1 hinfo).1
  have hsize := hlies.size_ge
  have hplace : heap.pool.arena.address info.block + start - heap.pool.arena.base =
      info.block.offset + start := by
    unfold Arena.address
    omega
  have hchange : heap.pool.arena.memory.Rewrites
      (heap.pool.arena.memory.fill (info.block.offset + start) count f)
      fun offset _ => info.HoldsAt offset := by
    refine (Memory.rewrites_fill _ _ _ _).mono fun offset word hspan => ?_
    refine hlies.holds_span (Nat.le_add_right _ _) ?_ hspan
    unfold BlockInfo.stop
    omega
  obtain ⟨hafter, hcarries⟩ := h.sound.of_payload hheld hchange
  rw [Arena.fill, hplace]
  exact ⟨blocks, chains, ⟨hafter, h.perm⟩,
    fun x hx => hheld.mem_iff.2 (List.mem_cons_of_mem _ hx),
    hcarries.mono (fun _ => id) (List.forall_mem_singleton.2 hinfo), fun _ => .inl⟩

/-- What resizing a block in use leaves in use. -/
theorem Heap.Owns.resize_spec (h : heap.Owns live blocks chains) {address : Nat}
    (haddress : address ∈ live) (size : Nat) (log : Array Event) :
    ∃ answer after log', (Heap.resize (some address) size).runOn heap log =
        .ok (answer, after) log' ∧
      ∃ kept, heap.Continues after answer ((Call.resize (some address) size).live answer live)
          (held blocks) kept ∧
        ∀ x ∈ held blocks, heap.pool.arena.address x.block ≠ address → x ∈ kept := by
  obtain ⟨info, kept, hheld, rfl, hkept⟩ := h.exists_info haddress
  have hother : ∀ x ∈ held blocks, heap.pool.arena.address x.block ≠
      heap.pool.arena.address info.block → x ∈ kept := fun x => mem_of_address_ne hheld
  have hbefore : ∀ x ∈ kept, x ∈ held blocks := fun x hx =>
    hheld.mem_iff.2 (List.mem_cons_of_mem _ hx)
  obtain ⟨answer, after, log', hrun, hcases⟩ := h.sound.resize_spec hheld size log
  refine ⟨answer, after, log', hrun, ?_⟩
  rcases hcases with
    ⟨rfl, hsize, hrefuses⟩ | ⟨rfl, rfl, hfrees⟩ | ⟨fresh, rfl, hgrants, hapart, -⟩
  · refine ⟨held blocks, ?_, fun x hx _ => hx⟩
    simpa [Call.live, Call.freed?, hsize] using hrefuses.continues h
  · refine ⟨kept, ?_, hother⟩
    simpa [Call.live, Call.freed?] using hfrees.continues hkept hbefore
  · refine ⟨kept, ?_, hother⟩
    simpa [Call.live, Call.freed?] using hgrants.continues_of_apart hkept hbefore hapart

/-- A valid call does not fail, and leaves alone what it is not about. -/
theorem Heap.Owns.call_spec (h : heap.Owns live blocks chains) (hvalid : call.Valid heap live)
    (log : Array Event) :
    ∃ answer after log', call.run.runOn heap log = .ok (answer, after) log' ∧
      ∃ kept, heap.Continues after answer (call.live answer live) (held blocks) kept ∧
        ∀ x ∈ held blocks, some (heap.pool.arena.address x.block) ≠ call.given? → x ∈ kept := by
  obtain ⟨hgiven, hspan⟩ := hvalid
  cases call with
  | allocate size =>
    obtain ⟨answer, after, log', hrun, hafter⟩ := h.allocate_spec size log
    exact ⟨answer, after, log', hrun, _, hafter, fun x hx _ => hx⟩
  | allocateZeroed count size =>
    obtain ⟨answer, after, log', hrun, hafter⟩ := h.allocateZeroed_spec count size log
    exact ⟨answer, after, log', hrun, _, hafter, fun x hx _ => hx⟩
  | allocateAligned align size =>
    obtain ⟨answer, after, log', hrun, hafter⟩ := h.allocateAligned_spec align size log
    exact ⟨answer, after, log', hrun, _, hafter, fun x hx _ => hx⟩
  | resize address size =>
    cases address with
    | none =>
      obtain ⟨answer, after, log', hrun, hafter⟩ := h.allocate_spec size log
      refine ⟨answer, after, log', hrun, _, ?_, fun x hx _ => hx⟩
      simpa [Call.live, Call.freed?] using hafter
    | some address =>
      obtain ⟨answer, after, log', hrun, kept, hafter, hother⟩ :=
        h.resize_spec (hgiven address rfl) size log
      refine ⟨answer, after, log', hrun, kept, hafter, fun x hx hne => hother x hx ?_⟩
      exact fun heq => hne (congrArg some heq)
  | release address =>
    cases address with
    | none =>
      refine ⟨none, heap, log, ?_, _, (Refuses.refl heap).continues h, fun x hx _ => hx⟩
      simp only [Call.run, release, HeapM.runOn_bind, HeapM.runOn_pure]
    | some address =>
      obtain ⟨info, kept, hheld, rfl, hkept⟩ := h.exists_info (hgiven address rfl)
      obtain ⟨after, hrun, hfrees⟩ := h.sound.release_spec hheld log
      have hbefore : ∀ x ∈ kept, x ∈ held blocks := fun x hx =>
        hheld.mem_iff.2 (List.mem_cons_of_mem _ hx)
      refine ⟨none, after, log, ?_, kept, hfrees.continues hkept hbefore, fun x hx hne => ?_⟩
      · simp only [Call.run, HeapM.runOn_bind, hrun, HeapM.runOn_pure]
      · exact mem_of_address_ne hheld hx fun heq => hne (congrArg some heq)
  | write address start count f =>
    obtain ⟨info, kept, hheld, rfl, -⟩ := h.exists_info (hgiven address rfl)
    obtain ⟨usable, husable, hroom⟩ := hspan
    have hinfo := (mem_held.1 (hheld.mem_iff.2 List.mem_cons_self)).1
    obtain rfl : info.size - 16 = usable := by
      simpa [h.sound.usableSize_eq hinfo] using husable
    refine ⟨none, _, log, ?_, kept, h.fill_spec hheld hroom f, fun x hx hne => ?_⟩
    · simp only [Call.run, HeapM.runOn_bind, HeapM.runOn_modify, HeapM.runOn_pure]
    · exact mem_of_address_ne hheld hx fun heq => hne (congrArg some heq)

/-- How the heap goes on after a valid call. -/
theorem Heap.Owns.continues_of_run (h : heap.Owns live blocks chains)
    (hvalid : call.Valid heap live) {answer : Option Nat} {log log' : Array Event}
    (hcall : call.run.runOn heap log = .ok (answer, after) log') :
    ∃ kept, heap.Continues after answer (call.live answer live) (held blocks) kept := by
  obtain ⟨_, _, _, hrun, kept, hcontinues, -⟩ := h.call_spec hvalid log
  rw [hcall] at hrun
  cases hrun
  exact ⟨kept, hcontinues⟩

/-- Every heap that a run leads to is sound. -/
theorem Reachable.owns (h : Reachable build region heap live) :
    ∃ blocks chains, heap.Owns live blocks chains := by
  induction h with
  | @create memory heap log _ hspace hcreate =>
    obtain ⟨answer, log', hrun, hsound⟩ := create_spec build hspace memory log
    rw [hcreate] at hrun
    cases hrun
    obtain ⟨-, blocks, chains, hsound, hheld, -⟩ := hsound heap rfl
    exact ⟨blocks, chains, hsound, by simp [addresses, hheld]⟩
  | @call heap after live call answer log _ _ hvalid hcall ih =>
    obtain ⟨blocks, chains, howns⟩ := ih
    obtain ⟨kept, blocks', chains', hafter, -⟩ := howns.continues_of_run hvalid hcall
    exact ⟨blocks', chains', hafter⟩

/-- No call turns the checks of a build on or off. -/
theorem Reachable.build_eq (h : Reachable build region heap live) :
    heap.pool.arena.build = build := by
  induction h with
  | @create memory heap log _ hspace hcreate =>
    obtain ⟨answer, log', hrun, hsound⟩ := create_spec build hspace memory log
    rw [hcreate] at hrun
    cases hrun
    exact (hsound heap rfl).1
  | @call heap after live call answer log _ hbefore hvalid hcall ih =>
    obtain ⟨blocks, chains, howns⟩ := hbefore.owns
    obtain ⟨kept, _, _, _, _, hcarries, -⟩ := howns.continues_of_run hvalid hcall
    exact hcarries.build_eq.trans ih

end BoundaryTag
