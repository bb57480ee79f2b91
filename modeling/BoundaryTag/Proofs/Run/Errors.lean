import BoundaryTag.Proofs.Heap.Aligned
import BoundaryTag.Proofs.Run.Step

namespace BoundaryTag

/-- The size of the block for a request of `size` bytes, where no sum overflows. -/
def blockBytes (size : Nat) : Nat := max 32 ((size + 31) / 16 * 16)

theorem blockSize_eq (size : Nat) : blockSize size =
    if size = 0 then .error .zeroSize
    else if UInt64.size ≤ size + 31 then .error .overflow
    else .ok (blockBytes size) := by
  by_cases hzero : size = 0
  · simp only [blockSize, if_pos hzero]
  · by_cases hbig : UInt64.size ≤ size + 31
    · have hround : roundUp? (size + tagBytes) alignment = none :=
        if_neg fun hfit => Nat.not_lt_of_le hbig hfit.2
      simp only [blockSize, if_neg hzero, if_pos hbig, hround, ite_self]
    · have hround : roundUp? (size + tagBytes) alignment = some ((size + 31) / 16 * 16) :=
        (roundUp?_eq _ _).trans (if_pos ⟨by decide, Nat.lt_of_not_le hbig⟩)
      have hsmall : ¬ UInt64.size ≤ size + tagBytes := by
        simp only [tagBytes]
        omega
      simp only [blockSize, if_neg hzero, if_neg hbig, if_neg hsmall, hround]
      rw [blockBytes, Nat.max_comm]
      rfl

namespace Heap

variable {ρ : Type}

/-- The request does not fault, and the errors that it answers are those with `fails`. -/
def FailsIff {α : Type} (heap : Heap ρ) (request : RequestM ρ α) (fails : HeapError → Prop) :
    Prop :=
  ∀ log, ∃ answer after log', request.runOn heap log = .ok (answer, after) log' ∧
    ∀ error, answer = .error error ↔ fails error

variable {heap after : Heap ρ} {blocks : List BlockInfo} {chains : Chains} {size needed : Nat}
  {error other : HeapError} {found : Option Block} {whole : BlockInfo}

theorem failsIff_of_error {α : Type} {request : RequestM ρ α}
    (hrun : ∀ log, request.runOn heap log = .ok (.error error, heap) log) :
    heap.FailsIff request (· = error) := by
  intro log
  refine ⟨.error error, heap, log, hrun log, fun other => ?_⟩
  rw [Except.error.injEq, eq_comm]

theorem FailsIff.congr {α : Type} {request : RequestM ρ α} {fails fails' : HeapError → Prop}
    (h : heap.FailsIff request fails) (hiff : ∀ error, fails error ↔ fails' error) :
    heap.FailsIff request fails' := by
  intro log
  obtain ⟨answer, after, log', hrun, herror⟩ := h log
  exact ⟨answer, after, log', hrun, fun error => (herror error).trans (hiff error)⟩

/-- A request whose first step can fail, and nothing after it. -/
theorem FailsIff.of_step {α β : Type} {first : RequestM ρ α} {request : RequestM ρ β}
    {fails : HeapError → Prop} (h : heap.FailsIff first fails)
    (hrefused : ∀ {log error after log'}, first.runOn heap log = .ok (.error error, after) log' →
      request.runOn heap log = .ok (.error error, after) log')
    (hgranted : ∀ {log value after log'}, first.runOn heap log = .ok (.ok value, after) log' →
      ∃ value after log', request.runOn heap log = .ok (.ok value, after) log') :
    heap.FailsIff request fails := by
  intro log
  obtain ⟨answer, after, log', hrun, herror⟩ := h log
  cases answer with
  | error error =>
    refine ⟨_, after, log', hrefused hrun, fun other => ?_⟩
    rw [← herror other, Except.error.injEq, Except.error.injEq]
  | ok value =>
    obtain ⟨value', after, log', hrun⟩ := hgranted hrun
    refine ⟨_, after, log', hrun, fun other => ?_⟩
    rw [← herror other]
    exact ⟨nofun, nofun⟩

section Declines

variable [Region ρ]

/-- There is one reason at most. -/
theorem Declines.unique (h : heap.Declines size error) (hother : heap.Declines size other) :
    other = error := by
  cases h with
  | unserved hsize =>
    cases hother with
    | unserved hsize' => exact Except.error.inj (hsize'.symm.trans hsize)
    | starved hneeded => cases hneeded.symm.trans hsize
  | starved hneeded hfit hgrow =>
    cases hother with
    | unserved hsize => cases hsize.symm.trans hneeded
    | starved hneeded' hfit' hgrow' =>
      cases hneeded'.symm.trans hneeded
      cases hgrow'.symm.trans hgrow
      rfl

variable [GrowsByLength ρ]

/-- A region that grants whatever fits did not refuse to grow if a block was taken. -/
theorem Takes.not_declines (h : heap.Takes after blocks needed found whole)
    (hobliging : GrowsByLength.Obliging heap.region) (hsound : heap.Sound blocks chains)
    (hneeded : blockSize size = .ok needed) :
    ¬ heap.Declines size error := by
  intro hdeclines
  cases hdeclines with
  | unserved hsize => cases hsize.symm.trans hneeded
  | @starved _ reason hneeded' hfit hgrow =>
    cases hneeded'.symm.trans hneeded
    -- The search found nothing, so the arena did grow by what the region is said to refuse.
    cases h.search_eq.symm.trans hfit
    obtain ⟨front, rest, links, -, -, -, hafter⟩ := h.sound
    have hlen : after.pool.arena.len = Region.len heap.region + max needed growthUnit := by
      rw [← hsound.len_eq]
      exact h.len_eq
    have hshort := hafter.orderly.represents.laid.short
    have hroom := hafter.len_le
    rw [h.carries.capacity_eq, hlen] at hroom
    rw [hlen] at hshort
    rw [GrowsByLength.grow_eq hobliging, if_neg (Nat.not_le_of_lt hshort),
      if_neg (Nat.not_lt_of_le hroom)] at hgrow
    cases hgrow

theorem Sound.takeBlock_failsIff (h : heap.Sound blocks chains)
    (hobliging : GrowsByLength.Obliging heap.region) (size : Nat) :
    heap.FailsIff (takeBlock size) (heap.Declines size) := by
  intro log
  rcases h.takeBlock_takes size log with
    ⟨error, after, log', hrun, hdeclines, -⟩ |
    ⟨needed, found, whole, after, log', hneeded, hrun, htakes⟩
  · refine ⟨_, after, log', hrun, fun other => ⟨?_, fun hother => ?_⟩⟩
    · rintro ⟨⟩
      exact hdeclines
    · rw [hdeclines.unique hother]
  · refine ⟨_, after, log', hrun, fun other => ⟨nofun, fun hother => ?_⟩⟩
    exact absurd hother (htakes.not_declines hobliging h hneeded)

theorem Sound.request_failsIff (h : heap.Sound blocks chains)
    (hobliging : GrowsByLength.Obliging heap.region) (size : Nat) :
    heap.FailsIff (request size) (heap.Declines size) := by
  apply (h.takeBlock_failsIff hobliging size).of_step
  · intro log error after log' htake
    simp only [request, RequestM.runOn_bind, htake]
  · intro log block after log' htake
    refine ⟨after.pool.arena.address block, after, log', ?_⟩
    simp only [request, RequestM.runOn_bind, htake, RequestM.runOn_get, RequestM.runOn_pure]

/-- A request for an alignment above 16 fails as a request for the larger block does, unless the
    sizes overflow before that. -/
theorem Sound.requestAligned_failsIff (h : heap.Sound blocks chains)
    (hobliging : GrowsByLength.Obliging heap.region) {align : Nat}
    (hpower : IsPowerOfTwo align) (hlarge : alignment < align) (size : Nat) :
    heap.FailsIff (requestAligned align size) fun error =>
      match blockSize size with
      | .error reason => error = reason
      | .ok needed =>
        if UInt64.size ≤ needed + align + smallestBlock then error = .overflow
        else heap.Declines (needed + align + smallestBlock - tagBytes) error := by
  cases hneeded : blockSize size with
  | error reason =>
    exact failsIff_of_error (runOn_requestAligned_of_unserved hpower hlarge hneeded)
  | ok needed =>
    simp only
    by_cases hbig : UInt64.size ≤ needed + align + smallestBlock
    · simp only [if_pos hbig]
      exact failsIff_of_error (runOn_requestAligned_of_overflow hpower hlarge hneeded hbig)
    · simp only [if_neg hbig]
      apply (h.takeBlock_failsIff hobliging
        (needed + align + smallestBlock - tagBytes)).of_step
      · intro log error after log' htake
        exact runOn_requestAligned_of_refused hpower hlarge hneeded hbig htake
      · intro log block middle log' htake
        obtain ⟨info, after, hrun, -⟩ := h.requestAligned_of_takeBlock hpower hlarge hneeded htake
        exact ⟨_, after, log', hrun⟩

end Declines

/-- No free block is found for `needed` bytes, and the buffer is too small to grow for them. -/
def Starves (heap : Heap BufferRegion) (needed : Nat) (reason : RegionError) : Prop :=
  heap.pool.fit? needed = .ok none ∧ heap.region.remaining < max needed growthUnit ∧
    reason = if UInt64.size ≤ heap.region.len + max needed growthUnit then .overflow
      else .exhausted

/-- The errors of a request for `size` bytes that searches for a block of `needed` bytes, where the
    sizes overflow under the condition `overflows`. -/
def FailsAs (heap : Heap BufferRegion) (size needed : Nat) (overflows : Prop) : HeapError → Prop
  | .zeroSize => size = 0
  | .overflow => overflows
  | .invalidAlignment => False
  | .region reason => size ≠ 0 ∧ ¬ overflows ∧ heap.Starves needed reason

section Buffer

variable {heap : Heap BufferRegion}

/-- A buffer whose capacity is a word refuses what exceeds the rest of it. -/
theorem grow_eq_error_iff {region : BufferRegion} (hlen : region.len ≤ region.capacity)
    (hcapacity : region.capacity < UInt64.size) {bytes : Nat} {reason : RegionError} :
    (Region.grow region bytes).1 = .error reason ↔ region.remaining < bytes ∧
      reason = if UInt64.size ≤ region.len + bytes then .overflow else .exhausted := by
  have hgrow : (Region.grow region bytes).1 =
      if UInt64.size ≤ region.len + bytes then .error .overflow
      else if region.capacity < region.len + bytes then .error .exhausted
      else .ok (region.base + region.len) := GrowsByLength.grow_eq trivial bytes
  rw [hgrow, BufferRegion.remaining]
  by_cases hbig : UInt64.size ≤ region.len + bytes
  · have hshort : region.capacity - region.len < bytes := by omega
    rw [if_pos hbig, if_pos hbig, Except.error.injEq, and_iff_right hshort, eq_comm]
  · rw [if_neg hbig, if_neg hbig]
    by_cases hroom : region.capacity < region.len + bytes
    · have hshort : region.capacity - region.len < bytes := by omega
      rw [if_pos hroom, Except.error.injEq, and_iff_right hshort, eq_comm]
    · rw [if_neg hroom]
      refine ⟨nofun, fun hshort => absurd hshort.1 ?_⟩
      omega

theorem Sound.starves_iff (h : heap.Sound blocks chains)
    (hcapacity : heap.region.capacity < UInt64.size) {reason : RegionError} :
    heap.Starves needed reason ↔ heap.pool.fit? needed = .ok none ∧
      (Region.grow heap.region (max needed growthUnit)).1 = .error reason := by
  have hlen : heap.region.len ≤ heap.region.capacity := by
    have hroom := h.len_le
    rw [h.len_eq] at hroom
    exact hroom
  rw [Starves, grow_eq_error_iff hlen hcapacity]

theorem Sound.declines_iff (h : heap.Sound blocks chains)
    (hcapacity : heap.region.capacity < UInt64.size) :
    heap.Declines size error ↔ blockSize size = .error error ∨
      ∃ needed reason, blockSize size = .ok needed ∧ heap.Starves needed reason ∧
        error = .region reason := by
  constructor
  · intro hdeclines
    cases hdeclines with
    | unserved hsize => exact .inl hsize
    | starved hneeded hfit hgrow =>
      exact .inr ⟨_, _, hneeded, (h.starves_iff hcapacity).2 ⟨hfit, hgrow⟩, rfl⟩
  · rintro (hsize | ⟨needed, reason, hneeded, hstarves, rfl⟩)
    · exact .unserved hsize
    · obtain ⟨hfit, hgrow⟩ := (h.starves_iff hcapacity).1 hstarves
      exact .starved hneeded hfit hgrow

variable {overflows : Prop}

theorem failsAs_zero_iff (hshort : ¬ overflows) :
    heap.FailsAs 0 needed overflows error ↔ error = .zeroSize := by
  cases error <;> simp [FailsAs, hshort]

theorem failsAs_iff_of_overflow (hsize : size ≠ 0) (hbig : overflows) :
    heap.FailsAs size needed overflows error ↔ error = .overflow := by
  cases error <;> simp [FailsAs, hsize, hbig]

theorem failsAs_iff_of_fits (hsize : size ≠ 0) (hshort : ¬ overflows) :
    heap.FailsAs size needed overflows error ↔
      ∃ reason, heap.Starves needed reason ∧ error = .region reason := by
  cases error <;> simp [FailsAs, hsize, hshort]

theorem failsAs_iff_of_starves (hsize : size ≠ 0) (hshort : ¬ overflows)
    (hfit : heap.pool.fit? needed = .ok none)
    (hroom : heap.region.remaining < max needed growthUnit) :
    heap.FailsAs size needed overflows error ↔ error = .region
      (if UInt64.size ≤ heap.region.len + max needed growthUnit then .overflow
        else .exhausted) := by
  rw [failsAs_iff_of_fits hsize hshort]
  constructor
  · rintro ⟨reason, ⟨-, -, rfl⟩, rfl⟩
    rfl
  · rintro rfl
    exact ⟨_, ⟨hfit, hroom, rfl⟩, rfl⟩

theorem Sound.declines_iff_failsAs (h : heap.Sound blocks chains)
    (hcapacity : heap.region.capacity < UInt64.size) (size : Nat) (error : HeapError) :
    heap.Declines size error ↔
      heap.FailsAs size (blockBytes size) (UInt64.size ≤ size + 31) error := by
  rw [h.declines_iff hcapacity, blockSize_eq]
  by_cases hsize : size = 0
  · subst hsize
    rw [if_pos rfl, failsAs_zero_iff (by decide)]
    simp [eq_comm]
  · by_cases hbig : UInt64.size ≤ size + 31
    · rw [if_neg hsize, if_pos hbig, failsAs_iff_of_overflow hsize hbig]
      simp [eq_comm]
    · rw [if_neg hsize, if_neg hbig, failsAs_iff_of_fits hsize hbig]
      simp

/-- The larger block that an alignment above 16 takes is a whole multiple of 16 already. -/
theorem blockSize_padded {align : Nat} (hpower : IsPowerOfTwo align) (hlarge : alignment < align)
    (hshort : ¬ UInt64.size ≤ blockBytes size + align + 32) :
    blockSize (blockBytes size + align + smallestBlock - tagBytes) =
      .ok (blockBytes size + align + 32) := by
  have hdvd : 16 ∣ align := IsPowerOfTwo.dvd (by decide) hpower (Nat.le_of_lt hlarge)
  have hmod : blockBytes size % 16 = 0 := by
    unfold blockBytes
    omega
  have hsize :
      blockBytes size + align + smallestBlock - tagBytes = blockBytes size + align + 16 := by
    simp only [smallestBlock, tagBytes]
    omega
  have hrounded : blockBytes (blockBytes size + align + 16) = blockBytes size + align + 32 := by
    generalize blockBytes size = needed at hmod
    unfold blockBytes
    omega
  have hfits : ¬ UInt64.size ≤ blockBytes size + align + 16 + 31 := by
    simp only [UInt64.size] at hshort ⊢
    omega
  rw [hsize, blockSize_eq, if_neg (by omega), if_neg hfits, hrounded]

theorem Sound.requestAligned_fails (h : heap.Sound blocks chains)
    (hcapacity : heap.region.capacity < UInt64.size) {align : Nat} (hpower : IsPowerOfTwo align)
    (hlarge : alignment < align) (hword : align < UInt64.size) (size : Nat) :
    heap.FailsIff (requestAligned align size)
      (heap.FailsAs size (blockBytes size + align + 32)
        (UInt64.size ≤ size + 31 ∨ UInt64.size ≤ blockBytes size + align + 32)) := by
  apply (h.requestAligned_failsIff trivial hpower hlarge size).congr
  intro error
  rw [blockSize_eq]
  by_cases hsize : size = 0
  · subst hsize
    -- For no bytes the padded size fits whatever the alignment is, so no second error applies.
    have hroom := hpower.add_self_le hword
    have hshort : ¬ (UInt64.size ≤ 0 + 31 ∨ UInt64.size ≤ blockBytes 0 + align + 32) := by
      simp only [UInt64.size, blockBytes] at hroom ⊢
      omega
    rw [if_pos rfl, failsAs_zero_iff hshort]
  · by_cases hbig : UInt64.size ≤ size + 31
    · rw [if_neg hsize, if_pos hbig, failsAs_iff_of_overflow hsize (.inl hbig)]
    · rw [if_neg hsize, if_neg hbig]
      by_cases hpadded : UInt64.size ≤ blockBytes size + align + 32
      · rw [failsAs_iff_of_overflow hsize (.inr hpadded)]
        exact iff_of_eq (if_pos hpadded)
      · rw [failsAs_iff_of_fits hsize (not_or_intro hbig hpadded)]
        change (if UInt64.size ≤ blockBytes size + align + 32 then _ else _) ↔ _
        rw [if_neg hpadded, h.declines_iff hcapacity, blockSize_padded hpower hlarge hpadded]
        simp

theorem Sound.requestZeroed_fails (h : heap.Sound blocks chains)
    (hcapacity : heap.region.capacity < UInt64.size) {count : Nat}
    (hshort : ¬ UInt64.size ≤ count * size) :
    heap.FailsIff (requestZeroed count size)
      (heap.FailsAs (count * size) (blockBytes (count * size))
        (UInt64.size ≤ count * size + 31)) := by
  have hplain :=
    (h.request_failsIff trivial (count * size)).congr (h.declines_iff_failsAs hcapacity _)
  apply hplain.of_step
  · intro log error after log' hrequest
    rw [runOn_requestZeroed_of_lt hshort, hrequest]
  · intro log address after log' hrequest
    rw [runOn_requestZeroed_of_lt hshort, hrequest]
    exact ⟨address, _, log', rfl⟩

end Buffer

/-- The errors of requests of every kind. Sizes are checked before anything is searched. No request
    faults. -/
structure FailsExactly (heap : Heap BufferRegion) : Prop where
  plain : ∀ size, heap.FailsIff (request size)
    (heap.FailsAs size (blockBytes size) (UInt64.size ≤ size + 31))
  misaligned : ∀ {align : Nat}, ¬ IsPowerOfTwo align → ∀ size,
    heap.FailsIff (requestAligned align size) (· = .invalidAlignment)
  unpadded : ∀ {align : Nat}, IsPowerOfTwo align → align ≤ alignment → ∀ size log,
    (requestAligned align size).runOn heap log = (request size).runOn heap log
  padded : ∀ {align : Nat}, IsPowerOfTwo align → alignment < align → align < UInt64.size → ∀ size,
    heap.FailsIff (requestAligned align size)
      (heap.FailsAs size (blockBytes size + align + 32)
        (UInt64.size ≤ size + 31 ∨ UInt64.size ≤ blockBytes size + align + 32))
  overlong : ∀ {count size : Nat}, UInt64.size ≤ count * size →
    heap.FailsIff (requestZeroed count size) (· = .overflow)
  zeroed : ∀ {count size : Nat}, ¬ UInt64.size ≤ count * size →
    heap.FailsIff (requestZeroed count size)
      (heap.FailsAs (count * size) (blockBytes (count * size)) (UInt64.size ≤ count * size + 31))

theorem Sound.failsExactly {heap : Heap BufferRegion} (h : heap.Sound blocks chains)
    (hcapacity : heap.region.capacity < UInt64.size) : heap.FailsExactly where
  plain size := (h.request_failsIff trivial size).congr (h.declines_iff_failsAs hcapacity size)
  misaligned hnot size := failsIff_of_error (runOn_requestAligned_of_not hnot size heap)
  unpadded hpower hsmall size := requestAligned_of_le hpower hsmall size heap
  padded hpower hlarge hword := h.requestAligned_fails hcapacity hpower hlarge hword
  overlong hbig := failsIff_of_error (runOn_requestZeroed_of_overflow hbig)
  zeroed := h.requestZeroed_fails hcapacity

end Heap

section Runs

variable {build : Build} {region : BufferRegion} {heap : Heap BufferRegion} {live : List Nat}

/-- Over a buffer whose capacity is a word, requests answer these errors and no others. -/
theorem failsExactly_of_reachable (h : Reachable build region heap live)
    (hcapacity : heap.region.capacity < UInt64.size) : heap.FailsExactly := by
  obtain ⟨blocks, chains, howns⟩ := h.owns
  exact howns.sound.failsExactly hcapacity

/-- After one call, a buffer of 16384 bytes has 12256 left. A request is too large for the buffer,
    for the sum of its length and what it is to grow by, or for a sum of sizes. -/
theorem failsExactly_after_allocate : ∃ heap,
    replay .checked sampleBuffer [.allocate 100] = some (heap, [65568]) ∧
    heap.FailsExactly ∧
    heap.FailsIff (Heap.request 20000) (· = .region .exhausted) ∧
    heap.FailsIff (Heap.request (UInt64.size - 32)) (· = .region .overflow) ∧
    heap.FailsIff (Heap.request (UInt64.size - 31)) (· = .overflow) ∧
    heap.FailsIff (Heap.requestAligned 8192 4020) (· = .region .exhausted) := by
  have heval : (replay .checked sampleBuffer [.allocate 100]).map (fun state => (state.2,
      state.1.region,
      [blockBytes 20000, blockBytes (UInt64.size - 32), blockBytes 4020 + 8192 + 32].map
        fun needed => (state.1.pool.fit? needed).toOption)) =
      some ([65568], { base := 65536, capacity := 16384, len := 4128 },
        [some none, some none, some none]) := by
    decide +kernel
  obtain ⟨heap, hreplay, hvalues⟩ := exists_of_replay heval
  simp only [Prod.mk.injEq, List.map_cons, List.cons.injEq, toOption_eq_some] at hvalues
  obtain ⟨hregion, hlarge, hhuge, hpadded, -⟩ := hvalues
  have hexact := failsExactly_of_reachable (reachable_of_replay hreplay) (by rw [hregion]; decide)
  have hleft : heap.region.remaining = 12256 := by
    rw [hregion]
    rfl
  have hlen : heap.region.len = 4128 := by
    rw [hregion]
  refine ⟨heap, hreplay, hexact, ?_, ?_, ?_, ?_⟩
  · apply (hexact.plain 20000).congr
    intro error
    have hroom : heap.region.remaining < max (blockBytes 20000) growthUnit := by
      rw [hleft]
      decide
    rw [Heap.failsAs_iff_of_starves (by decide) (by decide) hlarge hroom, hlen]
    rfl
  · apply (hexact.plain (UInt64.size - 32)).congr
    intro error
    have hroom : heap.region.remaining < max (blockBytes (UInt64.size - 32)) growthUnit := by
      rw [hleft]
      decide
    rw [Heap.failsAs_iff_of_starves (by decide) (by decide) hhuge hroom, hlen]
    rfl
  · apply (hexact.plain (UInt64.size - 31)).congr
    intro error
    exact Heap.failsAs_iff_of_overflow (by decide) (by decide)
  · apply (hexact.padded (by decide) (by decide) (by decide) 4020).congr
    intro error
    have hroom : heap.region.remaining < max (blockBytes 4020 + 8192 + 32) growthUnit := by
      rw [hleft]
      decide
    rw [Heap.failsAs_iff_of_starves (by decide) (by decide) hpadded hroom, hlen]
    rfl

end Runs

end BoundaryTag
