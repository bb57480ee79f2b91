import BoundaryTag.Proofs.Heap.Allocate
import BoundaryTag.Proofs.Pool.Release

namespace BoundaryTag

/-- A size with room for one more block leaves room for tags. -/
theorem sub_tagBytes_eq_ok (build : Build) (size : Nat) :
    build.sub (size + smallestBlock) tagBytes = .ok (size + smallestBlock - tagBytes) :=
  build.sub_eq_ok (Nat.le_trans (by decide) (Nat.le_add_left smallestBlock size))

/-- A lead is either nothing or enough for a block, and it brings the address to the alignment. -/
theorem leadBytes_spec (build : Build) {address align : Nat} (haddress : address % 16 = 0)
    (hpower : IsPowerOfTwo align) (hlarge : 16 < align) (hshort : align + 16 < UInt64.size)
    (hspace : address + align ≤ UInt64.size) :
    ∃ lead, leadBytes build address align = .ok (some lead) ∧ lead % 16 = 0 ∧
      (lead = 0 ∨ 32 ≤ lead) ∧ lead ≤ align + 16 ∧ (address + lead) % align = 0 := by
  have hdvd : 16 ∣ align := IsPowerOfTwo.dvd (by decide) hpower (Nat.le_of_lt hlarge)
  cases hgap : gapTo? address align with
  | none => exact absurd (gapTo?_eq_none hpower hgap) (Nat.not_lt.2 hspace)
  | some gap =>
    obtain ⟨hmultiple, hlt⟩ := gapTo?_spec hgap
    have hsum : (address + gap) % 16 = 0 := by
      rw [← Nat.mod_mod_of_dvd _ hdvd, hmultiple]
    by_cases hshortGap : 0 < gap ∧ gap < smallestBlock
    · have hgapLt : 0 < gap ∧ gap < 32 := hshortGap
      refine ⟨gap + align, ?_, by omega, .inr (by omega), by omega, ?_⟩
      · have hfit : gap + align < UInt64.size := by omega
        simp only [leadBytes, hgap, if_pos hshortGap, Build.add_eq_ok _ hfit, ok_bind, pure_eq_ok]
      · rw [← Nat.add_assoc, Nat.add_mod_right, hmultiple]
    · have hgapGe : ¬ (0 < gap ∧ gap < 32) := hshortGap
      refine ⟨gap, ?_, by omega, by omega, by omega, hmultiple⟩
      simp only [leadBytes, hgap, if_neg hshortGap, pure_eq_ok]

namespace Heap

section Equations

variable {ρ : Type} [Region ρ] {heap after : Heap ρ} {align size needed : Nat} {error : HeapError}
  {log log' : Array Event}

theorem runOn_requestAligned_of_not (hnot : ¬ IsPowerOfTwo align) (size : Nat) (heap : Heap ρ)
    (log : Array Event) :
    (requestAligned align size).runOn heap log = .ok (.error .invalidAlignment, heap) log := by
  simp only [requestAligned, hnot, not_false_eq_true, if_true, RequestM.runOn_bind,
    RequestM.runOn_throw]

theorem requestAligned_of_le (hpower : IsPowerOfTwo align) (hsmall : align ≤ alignment) (size : Nat)
    (heap : Heap ρ) (log : Array Event) :
    (requestAligned align size).runOn heap log = (request size).runOn heap log := by
  simp only [requestAligned, not_true, hpower, if_false, if_pos hsmall]

theorem runOn_requestAligned_of_unserved (hpower : IsPowerOfTwo align) (hlarge : alignment < align)
    (hsize : blockSize size = .error error) (log : Array Event) :
    (requestAligned align size).runOn heap log = .ok (.error error, heap) log := by
  simp only [requestAligned, not_true, hpower, if_false, if_neg (Nat.not_le_of_lt hlarge),
    RequestM.runOn_bind, RequestM.runOn_liftM_refusal, hsize]

theorem runOn_requestAligned_of_overflow (hpower : IsPowerOfTwo align) (hlarge : alignment < align)
    (hneeded : blockSize size = .ok needed)
    (hbig : UInt64.size ≤ needed + align + smallestBlock) (log : Array Event) :
    (requestAligned align size).runOn heap log = .ok (.error .overflow, heap) log := by
  simp only [requestAligned, not_true, hpower, if_false, if_neg (Nat.not_le_of_lt hlarge),
    RequestM.runOn_bind, RequestM.runOn_liftM_refusal, hneeded, if_pos hbig, RequestM.runOn_throw]

theorem runOn_requestAligned_of_refused (hpower : IsPowerOfTwo align) (hlarge : alignment < align)
    (hneeded : blockSize size = .ok needed)
    (hshort : ¬ UInt64.size ≤ needed + align + smallestBlock)
    (htake : (takeBlock (needed + align + smallestBlock - tagBytes)).runOn heap log =
      .ok (.error error, after) log') :
    (requestAligned align size).runOn heap log = .ok (.error error, after) log' := by
  simp only [requestAligned, not_true, hpower, if_false, if_neg (Nat.not_le_of_lt hlarge),
    RequestM.runOn_bind, RequestM.runOn_liftM_refusal, hneeded, if_neg hshort, RequestM.runOn_get,
    RequestM.runOn_liftM, sub_tagBytes_eq_ok, htake]

end Equations

variable {ρ : Type} [Region ρ] [GrowsInPlace ρ] {heap : Heap ρ}
  {front rest blocks : List BlockInfo} {chains : Chains} {info : BlockInfo}

/-- Freeing the lead of a block in use. -/
theorem Sound.splitLead_spec (h : heap.Sound (front ++ info :: rest) chains)
    (hallocated : info.allocated = true) {lead : Nat} (hlead : lead = 0 ∨ info.Cuts lead) :
    ∃ pool, ∃ before : Option BlockInfo, ∃ part chains',
      heap.pool.splitLead info.block lead = .ok (part.block, pool) ∧
      Sound { heap with pool } (absorbLast front before ++ part :: rest) chains' ∧
      (∀ x ∈ before, x.allocated = false) ∧ part.allocated = true ∧
      part.block.offset = info.block.offset + lead ∧ part.size = info.size - lead ∧
      pool.arena.len = heap.pool.arena.len ∧
      heap.Carries { heap with pool } (held front ++ held rest) [] := by
  by_cases hzero : lead = 0
  · subst hzero
    refine ⟨heap.pool, none, info, chains, rfl, h, nofun, hallocated, rfl, rfl, rfl, ?_⟩
    exact (Refuses.refl heap).carries _ _
  · have hcuts := hlead.resolve_left hzero
    have hfits := h.orderly.represents.laid.fits_middle
    obtain ⟨index, memory, hsplit, horderly, hhonest, hchange⟩ :=
      h.orderly.splitLead hallocated hcuts
    rw [mergeAt_cons_of_allocated rfl] at horderly
    refine ⟨_, some (info.firstPart lead false), info.lastPart lead true, _, hsplit,
      h.of_rewrite horderly, ?_, rfl, hcuts.offset_lastPart hfits true, rfl, rfl,
      h.carries_of_rewrite hhonest hchange⟩
    rintro _ ⟨⟩
    rfl

/-- Freeing the end of a block in use. -/
theorem Sound.splitTail_spec (h : heap.Sound (front ++ info :: rest) chains)
    (hallocated : info.allocated = true) {size : Nat} (hmod : size % 16 = 0) (hge : 32 ≤ size)
    (hle : size ≤ info.size) :
    ∃ pool taken, ∃ behind : Option BlockInfo, ∃ chains',
      heap.pool.splitTail info.block size = .ok pool ∧
      Sound { heap with pool } (front ++ taken :: absorbFirst behind rest) chains' ∧
      (∀ x ∈ behind, x.allocated = false) ∧ taken.allocated = true ∧ taken.block = info.block ∧
      size ≤ taken.size ∧ taken.size < size + smallestBlock ∧
      pool.arena.len = heap.pool.arena.len ∧
      heap.Carries { heap with pool } (held front ++ held rest) [] := by
  obtain ⟨taken, behind, chains', index, memory, hcarve, hsplit, horderly, hhonest, hchange⟩ :=
    h.orderly.splitTail hallocated hmod hge hle
  obtain ⟨hblock, htaken, hlow, hhigh, hbehind⟩ := BlockInfo.carve_spec hcarve hle
  exact ⟨_, taken, behind, chains', hsplit, h.of_rewrite horderly, hbehind, htaken, hblock, hlow,
    hhigh, rfl, h.carries_of_rewrite hhonest hchange⟩

/-- Cutting an aligned block out of a block in use. What is cut off is free. -/
theorem Sound.align_spec (h : heap.Sound (front ++ info :: rest) chains)
    (hallocated : info.allocated = true) {align needed : Nat} (hpower : IsPowerOfTwo align)
    (hlarge : 16 < align) (hmod : needed % 16 = 0) (hge : 32 ≤ needed)
    (hsize : needed + align + 32 ≤ info.size) :
    ∃ lead block lead_pool pool taken, ∃ before behind : Option BlockInfo, ∃ chains',
      leadBytes heap.pool.arena.build (heap.pool.arena.address info.block) align =
        .ok (some lead) ∧
      heap.pool.splitLead info.block lead = .ok (block, lead_pool) ∧
      lead_pool.splitTail block needed = .ok pool ∧ taken.block = block ∧
      Sound { heap with pool } (absorbLast front before ++ taken :: absorbFirst behind rest)
        chains' ∧
      (∀ x ∈ before, x.allocated = false) ∧ (∀ x ∈ behind, x.allocated = false) ∧
      taken.allocated = true ∧ needed ≤ taken.size ∧ taken.size < needed + smallestBlock ∧
      pool.arena.address block % align = 0 ∧ pool.arena.len = heap.pool.arena.len ∧
      heap.Carries { heap with pool } (held front ++ held rest) [] := by
  have hlies := h.orderly.represents.laid.liesIn_middle
  have hstop := hlies.stop_le
  have hshort := h.orderly.represents.laid.short
  unfold BlockInfo.stop at hstop
  have haddress := h.address_mod (List.mem_append_right front List.mem_cons_self)
  have hspace : heap.pool.arena.address info.block + align ≤ UInt64.size := by
    have hroom := h.len_le
    have hend := h.addressable
    unfold Arena.address
    omega
  obtain ⟨lead, hlead, hleadMod, hleadMin, hleadMax, haligned⟩ :=
    leadBytes_spec heap.pool.arena.build haddress hpower hlarge (by omega) hspace
  have hcuts : lead = 0 ∨ info.Cuts lead :=
    hleadMin.imp_right fun hmin => ⟨hleadMod, hmin, by omega⟩
  obtain ⟨pool₁, before, part, chains₁, hsplit, h₁, hbefore, hpart, hoffset, hpartSize, hlen₁,
    hcarries₁⟩ := h.splitLead_spec hallocated hcuts
  obtain ⟨pool₂, taken, behind, chains₂, htail, h₂, hbehind, htaken, hblock, hlow, hhigh, hlen₂,
    hcarries₂⟩ := h₁.splitTail_spec hpart hmod hge (by omega)
  rw [held_absorbLast] at hcarries₂
  refine ⟨lead, part.block, pool₁, pool₂, taken, before, behind, chains₂, hlead, hsplit, htail,
    hblock, h₂, hbefore, hbehind, htaken, hlow, hhigh, ?_, hlen₂.trans hlen₁,
    hcarries₁.trans hcarries₂ fun _ => id⟩
  have hbase : pool₂.arena.base = heap.pool.arena.base :=
    hcarries₂.base_eq.trans hcarries₁.base_eq
  rw [Arena.address, hbase, hoffset, ← Nat.add_assoc]
  exact haligned

/-- The address of any block is a multiple of a small alignment. -/
theorem Grants.address_mod {after : Heap ρ} {kept : List BlockInfo} {info : BlockInfo} {align : Nat}
    (h : heap.Grants after kept info) (hpower : IsPowerOfTwo align) (hsmall : align ≤ alignment) :
    after.pool.arena.address info.block % align = 0 := by
  obtain ⟨infos, chains, hsound, hheld⟩ := h.sound
  have hinfo := (mem_held.1 (hheld.mem_iff.2 List.mem_cons_self)).1
  have haddress := hsound.address_mod hinfo
  have hdvd : align ∣ 16 := hpower.dvd (by decide) hsmall
  exact Nat.mod_eq_zero_of_dvd (Nat.dvd_trans hdvd (Nat.dvd_of_mod_eq_zero haddress))

/-- Cutting an aligned block out of one that was just taken, which is large enough for any lead. Its
    neighbours are in use, but for what is left behind it, which the end that is cut off is merged
    with. -/
theorem Takes.align_spec {middle : Heap ρ} {padded : Nat} {found : Option Block}
    {whole : BlockInfo} (h : heap.Takes middle blocks padded found whole)
    (hsound : heap.Sound blocks chains) {align needed : Nat} (hpower : IsPowerOfTwo align)
    (hlarge : 16 < align) (hmod : needed % 16 = 0) (hge : 32 ≤ needed)
    (hroom : needed + align + 32 ≤ padded) :
    ∃ lead block lead_pool pool taken, ∃ before behind : Option BlockInfo,
      leadBytes middle.pool.arena.build (middle.pool.arena.address whole.block) align =
        .ok (some lead) ∧
      middle.pool.splitLead whole.block lead = .ok (block, lead_pool) ∧
      lead_pool.splitTail block needed = .ok pool ∧ taken.block = block ∧
      heap.Places { middle with pool } padded found whole before taken behind ∧
      needed ≤ taken.size ∧ taken.size < needed + smallestBlock ∧
      heap.Grants { middle with pool } (held blocks) taken ∧
      pool.arena.address block % align = 0 := by
  obtain ⟨front, rest, links, hlengthens, hsettled, htiles, hmiddle⟩ := h.sound
  obtain ⟨info, remainder, hcarve⟩ := whole.exists_carve padded
  obtain ⟨hstart, hallocated, hlow, -, hremainder⟩ := BlockInfo.carve_spec hcarve h.large
  rw [hcarve, List.cons_append] at hmiddle
  obtain ⟨lead, block, pool₁, pool₂, taken, before, behind, links₂, hlead, hsplit, htail, hblock,
    hafter, hbefore, hbehind, htaken, hsize, htight, haligned, hlen, hcarries⟩ :=
    hmiddle.align_spec hallocated hpower hlarge hmod hge (Nat.le_trans hroom hlow)
  rw [hstart] at hlead hsplit
  -- Around a free block all is in use, so the parts can only merge with the remainder.
  obtain ⟨-, -, hprevious, hnext⟩ := settled_middle.1 hsettled
  have hprevious : ∀ x ∈ front.getLast?, x.allocated = true := by simpa [h.free] using hprevious
  have hnext : ∀ y ∈ rest.head?, y.allocated = true := by simpa [h.free] using hnext
  obtain ⟨tail, htailEq, htailFree⟩ := exists_absorbFirst_eq hbehind hremainder hnext
  rw [absorbLast_eq hbefore hprevious, htailEq, List.append_assoc, ← List.cons_append,
    ← List.append_assoc before.toList] at hafter
  have hheld : held blocks = held front ++ held rest := by
    rw [← hlengthens.held_eq, held_append, held_cons_of_free h.free]
  rw [held_append remainder.toList, held_toList hremainder, List.nil_append, ← hheld] at hcarries
  refine ⟨lead, block, pool₁, pool₂, taken, before, tail, hlead, hsplit, htail, hblock,
    ⟨h.search_eq, h.found_eq, fun hnone => (h.stop_eq hnone).trans hlen.symm,
      hsound.exchanges hafter (hlen.trans h.len_eq) h.free hlengthens (hlen ▸ htiles), htaken,
      hbefore, htailFree⟩, hsize, htight,
    ⟨⟨_, _, hafter, ?_⟩, (h.carries.trans hcarries fun _ => id).unwritten _⟩, haligned⟩
  have hperm := held_middle htaken (front ++ before.toList) (tail.toList ++ rest)
  rw [held_append front, held_toList hbefore, List.append_nil, held_append tail.toList,
    held_toList htailFree, List.nil_append, ← hheld] at hperm
  simpa using hperm

/-- A request for an alignment above 16 is granted once a block was taken for it: no refusal comes
    after that. -/
theorem Sound.requestAligned_places (h : heap.Sound blocks chains) {align size needed : Nat}
    (hpower : IsPowerOfTwo align) (hlarge : alignment < align)
    (hneeded : blockSize size = .ok needed) {block : Block} {middle : Heap ρ}
    {log log' : Array Event}
    (htake : (takeBlock (needed + align + smallestBlock - tagBytes)).runOn heap log =
      .ok (.ok block, middle) log') :
    ∃ padded found whole taken after, ∃ before behind : Option BlockInfo,
      blockSize (needed + align + smallestBlock - tagBytes) = .ok padded ∧
      (requestAligned align size).runOn heap log =
        .ok (.ok (after.pool.arena.address taken.block), after) log' ∧
      heap.Places after padded found whole before taken behind ∧
      needed ≤ taken.size ∧ taken.size < needed + smallestBlock ∧
      heap.Grants after (held blocks) taken ∧
      after.pool.arena.address taken.block % align = 0 := by
  obtain ⟨hmod, hge, -, -⟩ := blockSize_spec hneeded
  have hnot := Nat.not_le_of_lt hlarge
  rcases h.takeBlock_takes (needed + align + smallestBlock - tagBytes) log with
    ⟨error, after, _, hrefused, -⟩ | ⟨padded, found, whole, after, _, hpadded, hgranted, htakes⟩
  · rw [htake] at hrefused
    cases hrefused
  · rw [htake] at hgranted
    cases hgranted
    obtain ⟨-, -, hroom, hshort⟩ := blockSize_spec hpadded
    simp only [smallestBlock, tagBytes] at hroom
    have hsmall : ¬ UInt64.size ≤ needed + align + smallestBlock := by
      simp only [smallestBlock]
      omega
    obtain ⟨lead, part, pool₁, pool₂, taken, before, behind, hlead, hsplit, htail, rfl, hafter⟩ :=
      htakes.align_spec h hpower hlarge hmod hge (by omega)
    refine ⟨padded, found, whole, taken, _, before, behind, hpadded, ?_, hafter⟩
    simp only [requestAligned, not_true, hpower, if_false, if_neg hnot, RequestM.runOn_bind,
      RequestM.runOn_liftM_refusal, hneeded, if_neg hsmall, sub_tagBytes_eq_ok, htake,
      RequestM.runOn_get, RequestM.runOn_liftM, hlead, hsplit, htail, RequestM.runOn_set,
      RequestM.runOn_pure]

theorem Sound.requestAligned_of_takeBlock (h : heap.Sound blocks chains) {align size needed : Nat}
    (hpower : IsPowerOfTwo align) (hlarge : alignment < align)
    (hneeded : blockSize size = .ok needed) {block : Block} {middle : Heap ρ}
    {log log' : Array Event}
    (htake : (takeBlock (needed + align + smallestBlock - tagBytes)).runOn heap log =
      .ok (.ok block, middle) log') :
    ∃ info after, (requestAligned align size).runOn heap log =
        .ok (.ok (after.pool.arena.address info.block), after) log' ∧
      heap.Grants after (held blocks) info ∧ needed ≤ info.size ∧
      after.pool.arena.address info.block % align = 0 := by
  obtain ⟨padded, found, whole, taken, after, before, behind, -, hrequest, -, hsize, -, hgrants,
    haligned⟩ := h.requestAligned_places hpower hlarge hneeded htake
  exact ⟨taken, after, hrequest, hgrants, hsize, haligned⟩

/-- A request for an alignment above 16 is refused before a block was taken for it, if it is refused
    at all. -/
theorem Sound.requestAligned_of_lt (h : heap.Sound blocks chains) {align : Nat}
    (hpower : IsPowerOfTwo align) (hlarge : alignment < align) (size : Nat) (log : Array Event) :
    (∃ error after log', (requestAligned align size).runOn heap log =
        .ok (.error error, after) log' ∧
      heap.Refuses after) ∨
    ∃ needed block middle log', blockSize size = .ok needed ∧
      (takeBlock (needed + align + smallestBlock - tagBytes)).runOn heap log =
        .ok (.ok block, middle) log' := by
  cases hneeded : blockSize size with
  | error error =>
    exact .inl ⟨error, heap, log, runOn_requestAligned_of_unserved hpower hlarge hneeded log,
      .refl heap⟩
  | ok needed =>
    by_cases hbig : UInt64.size ≤ needed + align + smallestBlock
    · exact .inl ⟨.overflow, heap, log,
        runOn_requestAligned_of_overflow hpower hlarge hneeded hbig log, .refl heap⟩
    · rcases h.takeBlock_takes (needed + align + smallestBlock - tagBytes) log with
        ⟨error, after, log', htake, -, hrefuses⟩ | ⟨_, _, whole, middle, log', -, htake, -⟩
      · exact .inl ⟨error, after, log',
          runOn_requestAligned_of_refused hpower hlarge hneeded hbig htake, hrefuses⟩
      · exact .inr ⟨needed, _, middle, log', rfl, htake⟩

/-- A request for an alignment is refused, or grants a block at a multiple of it. It is never
    refused once a block was taken for it. -/
theorem Sound.requestAligned_spec (h : heap.Sound blocks chains) (align size : Nat)
    (log : Array Event) :
    (∃ error after log', (requestAligned align size).runOn heap log =
        .ok (.error error, after) log' ∧
      heap.Refuses after) ∨
    ∃ needed info after log', blockSize size = .ok needed ∧
      (requestAligned align size).runOn heap log =
        .ok (.ok (after.pool.arena.address info.block), after) log' ∧
      heap.Grants after (held blocks) info ∧ needed ≤ info.size ∧
      after.pool.arena.address info.block % align = 0 := by
  by_cases hpower : IsPowerOfTwo align
  · by_cases hsmall : align ≤ alignment
    · have hsame := requestAligned_of_le hpower hsmall size heap log
      rcases h.request_spec size log with
        ⟨error, after, log', hrequest, hrefuses⟩ |
        ⟨needed, info, after, log', hneeded, hrequest, hgrants, hsize⟩
      · exact .inl ⟨error, after, log', hsame.trans hrequest, hrefuses⟩
      · refine .inr ⟨needed, info, after, log', hneeded, hsame.trans hrequest, hgrants, hsize, ?_⟩
        exact hgrants.address_mod hpower hsmall
    · have hlarge := Nat.lt_of_not_le hsmall
      apply (h.requestAligned_of_lt hpower hlarge size log).imp_right
      rintro ⟨needed, block, middle, log', hneeded, htake⟩
      obtain ⟨info, after, hrequest, hafter⟩ :=
        h.requestAligned_of_takeBlock hpower hlarge hneeded htake
      exact ⟨needed, info, after, log', hneeded, hrequest, hafter⟩
  · exact .inl ⟨.invalidAlignment, heap, log, runOn_requestAligned_of_not hpower size heap log,
      .refl heap⟩

/-- A request that is refused was refused before the heap changed, or by the region. -/
theorem Sound.requestAligned_keeps [KeepsOnRefusal ρ] (h : heap.Sound blocks chains)
    {align size : Nat} {error : HeapError} {after : Heap ρ} {log log' : Array Event}
    (hrun : (requestAligned align size).runOn heap log = .ok (.error error, after) log') :
    after = heap := by
  by_cases hpower : IsPowerOfTwo align
  · by_cases hsmall : align ≤ alignment
    · rw [requestAligned_of_le hpower hsmall] at hrun
      exact h.request_keeps hrun
    · have hlarge := Nat.lt_of_not_le hsmall
      cases hneeded : blockSize size with
      | error error =>
        rw [runOn_requestAligned_of_unserved hpower hlarge hneeded] at hrun
        cases hrun
        rfl
      | ok needed =>
        by_cases hbig : UInt64.size ≤ needed + align + smallestBlock
        · rw [runOn_requestAligned_of_overflow hpower hlarge hneeded hbig] at hrun
          cases hrun
          rfl
        · rcases h.takeBlock_takes (needed + align + smallestBlock - tagBytes) log with
            ⟨_, _, _, htake, -⟩ | ⟨_, _, _, _, _, -, htake, -⟩
          · rw [runOn_requestAligned_of_refused hpower hlarge hneeded hbig htake] at hrun
            cases hrun
            exact h.takeBlock_keeps htake
          · obtain ⟨_, _, hgranted, -⟩ :=
              h.requestAligned_of_takeBlock hpower hlarge hneeded htake
            rw [hrun] at hgranted
            cases hgranted
  · rw [runOn_requestAligned_of_not hpower] at hrun
    cases hrun
    rfl

end Heap

end BoundaryTag
