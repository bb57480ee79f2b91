import BoundaryTag.Heap.Allocate
import BoundaryTag.Proofs.Heap.Growth
import BoundaryTag.Proofs.Pool.Fit
import BoundaryTag.Proofs.Pool.Take
import BoundaryTag.Proofs.Pool.Walk

namespace BoundaryTag

theorem blockSize_spec {size needed : Nat} (h : blockSize size = .ok needed) :
    needed % 16 = 0 ∧ 32 ≤ needed ∧ size + 16 ≤ needed ∧ needed < UInt64.size := by
  rw [blockSize] at h
  split at h
  · cases h
  · split at h
    · cases h
    · split at h
      · rename_i rounded hround
        obtain ⟨-, hmod, hlow, -, hshort⟩ := roundUp?_spec hround
        obtain rfl : max rounded smallestBlock = needed := by simpa using h
        have hsmall : smallestBlock < UInt64.size := by decide
        simp only [alignment, tagBytes, smallestBlock] at *
        omega
      · cases h

/-- What an arena grows by for a block is a whole multiple of 16, so nothing is rounded. -/
theorem roundUp?_growth {size needed : Nat} (h : blockSize size = .ok needed) :
    roundUp? (max needed growthUnit) alignment = some (max needed growthUnit) := by
  obtain ⟨hmod, -, -, hshort⟩ := blockSize_spec h
  have hroom : max needed growthUnit + (alignment - 1) < UInt64.size := by
    simp only [alignment, growthUnit, UInt64.size] at hshort ⊢
    omega
  rw [roundUp?_eq, if_pos ⟨by decide, hroom⟩, Option.some.injEq]
  simp only [alignment, growthUnit]
  omega

/-- Zeros that fit between the tags of a block leave the words outside alone. -/
theorem BlockInfo.LiesIn.rewrites_zero {info : BlockInfo} {start stop count : Nat}
    (h : info.LiesIn start stop) (m : Memory) (hroom : count + 16 ≤ info.size) :
    m.Rewrites (m.zero info.block.offset count) fun offset _ => info.HoldsAt offset := by
  refine (m.rewrites_zero _ _).mono fun offset word hspan => ?_
  refine h.holds_span (Nat.le_refl _) ?_ hspan
  unfold BlockInfo.stop
  omega

/-- By how many bytes an arena grows after a search for `needed` bytes. -/
def bytesToGrow (needed : Nat) (found : Option Block) : Nat :=
  if found.isSome then 0 else max needed growthUnit

theorem bytesToGrow_eq_zero_or_ge (needed : Nat) (found : Option Block) :
    bytesToGrow needed found = 0 ∨ 32 ≤ bytesToGrow needed found := by
  rw [bytesToGrow]
  split
  · exact .inl rfl
  · exact .inr (Nat.le_trans (by decide) (Nat.le_max_right needed growthUnit))

namespace Heap

variable {ρ : Type} [Region ρ] [GrowsInPlace ρ] {heap : Heap ρ}
  {front rest blocks : List BlockInfo} {chains : Chains} {info : BlockInfo}

/-- In an arena that may have grown, a free block makes way for parts that fill its span. No other
    block is moved, cut, merged or marked. -/
structure Exchanges (heap after : Heap ρ) (bytes : Nat) (whole : BlockInfo)
    (parts : List BlockInfo) : Prop where
  len_eq : after.pool.arena.len = heap.pool.arena.len + bytes
  free : whole.allocated = false
  tiles : Tiles whole.block.offset parts whole.stop
  blocks : ∃ before front rest, heap.pool.blocks = .ok before ∧
    Lengthens heap.pool.arena.len bytes before (front ++ whole :: rest) ∧
    after.pool.blocks = .ok (front ++ (parts ++ rest))

/-- A block comes into use in the place of the free block that a search for `sought` bytes found, or
    else of the one at the end of the arena, which has grown. What it does not take up of that block
    stays free. -/
structure Places (heap after : Heap ρ) (sought : Nat) (found : Option Block) (whole : BlockInfo)
    (before : Option BlockInfo) (taken : BlockInfo) (behind : Option BlockInfo) : Prop where
  search_eq : heap.pool.fit? sought = .ok found
  found_eq : ∀ block ∈ found, block = whole.block
  stop_eq : found = none → whole.stop = after.pool.arena.len
  exchanges : heap.Exchanges after (bytesToGrow sought found) whole
    (before.toList ++ taken :: behind.toList)
  allocated : taken.allocated = true
  free_before : ∀ part ∈ before, part.allocated = false
  free_behind : ∀ part ∈ behind, part.allocated = false

/-- The free block that a search found, or that an arena got by growing, is carved. Its neighbours
    are in use, since no two neighbours were free. -/
structure Takes (heap after : Heap ρ) (blocks : List BlockInfo) (needed : Nat)
    (found : Option Block) (whole : BlockInfo) : Prop where
  search_eq : heap.pool.fit? needed = .ok found
  found_eq : ∀ block ∈ found, block = whole.block
  stop_eq : found = none → whole.stop = after.pool.arena.len
  free : whole.allocated = false
  large : needed ≤ whole.size
  len_eq : after.pool.arena.len = heap.pool.arena.len + bytesToGrow needed found
  sound : ∃ (front rest : List BlockInfo) (chains : Chains),
    Lengthens heap.pool.arena.len (bytesToGrow needed found) blocks (front ++ whole :: rest) ∧
    Settled (front ++ whole :: rest) ∧
    Tiles frontBytes (front ++ whole :: rest) after.pool.arena.len ∧
    after.Sound (front ++ (whole.carve needed ++ rest)) (chains.carve whole needed)
  carries : heap.Carries after (held blocks) []

theorem Sound.exchanges {after : Heap ρ} {bytes : Nat} {whole : BlockInfo}
    {parts : List BlockInfo} {links : Chains} (h : heap.Sound blocks chains)
    (hafter : after.Sound (front ++ (parts ++ rest)) links)
    (hlen : after.pool.arena.len = heap.pool.arena.len + bytes) (hfree : whole.allocated = false)
    (hlengthens : Lengthens heap.pool.arena.len bytes blocks (front ++ whole :: rest))
    (htiles : Tiles frontBytes (front ++ whole :: rest) after.pool.arena.len) :
    heap.Exchanges after bytes whole parts where
  len_eq := hlen
  free := hfree
  tiles := htiles.fills hafter.orderly.represents.laid.tiles
  blocks := ⟨blocks, front, rest, Pool.blocks_eq h.orderly.represents.laid, hlengthens,
    Pool.blocks_eq hafter.orderly.represents.laid⟩

/-- Taking a free block of a sound heap into use. -/
theorem Sound.take_spec (h : heap.Sound (front ++ info :: rest) chains)
    (hfree : info.allocated = false) {needed : Nat} (hmod : needed % 16 = 0) (hge : 32 ≤ needed)
    (hle : needed ≤ info.size) :
    ∃ pool, heap.pool.take info.block needed = .ok pool ∧
      Sound { heap with pool } (front ++ (info.carve needed ++ rest)) (chains.carve info needed) ∧
      pool.arena.len = heap.pool.arena.len ∧
      heap.Carries { heap with pool } (held (front ++ info :: rest)) [] := by
  have hinfo : info ∈ front ++ info :: rest := by simp
  have hlisted := h.orderly.tidy.listed info hinfo hfree
  obtain ⟨index, memory, htake, hrepresents, hhonest, hchange⟩ :=
    h.orderly.represents.take hlisted hmod hge hle
  have htidy := h.orderly.tidy.carve h.orderly.represents.laid.tiles hfree needed
  refine ⟨_, htake, h.of_rewrite ⟨hrepresents, htidy⟩, rfl, rfl, rfl, Nat.le_refl _, rfl,
    fun x hx => ?_, hhonest⟩
  refine h.orderly.represents.keeps_of_loose hx (hchange.mono ?_)
  rintro offset word (hcovers | ⟨hlink, -⟩)
  · exact ⟨info, hinfo, hfree, hcovers⟩
  · exact h.orderly.represents.loose_of_link hlink

/-- A free block is taken into use that a search found, or that the heap got by growing for it. -/
theorem Sound.takes {middle : Heap ρ} (h : middle.Sound (front ++ info :: rest) chains)
    (hfree : info.allocated = false) {needed : Nat} (hmod : needed % 16 = 0) (hge : 32 ≤ needed)
    (hle : needed ≤ info.size) {found : Option Block} (hfit : heap.pool.fit? needed = .ok found)
    (hfound : ∀ block ∈ found, block = info.block) (hlast : found = none → rest = [])
    (hlengthens : Lengthens heap.pool.arena.len (bytesToGrow needed found) blocks
      (front ++ info :: rest))
    (hlen : middle.pool.arena.len = heap.pool.arena.len + bytesToGrow needed found)
    (hcarries : heap.Carries middle (held blocks) []) :
    ∃ pool, middle.pool.take info.block needed = .ok pool ∧
      heap.Takes { middle with pool } blocks needed found info := by
  obtain ⟨pool, htake, hafter, hlenTake, hcarriesTake⟩ := h.take_spec hfree hmod hge hle
  have htiles := h.orderly.represents.laid.tiles
  rw [← hlenTake] at htiles
  rw [hlengthens.held_eq] at hcarriesTake
  refine ⟨pool, htake, hfit, hfound, fun hnone => ?_, hfree, hle, hlenTake.trans hlen,
    ⟨front, rest, chains, hlengthens, h.orderly.tidy.settled, htiles, hafter⟩,
    hcarries.trans hcarriesTake fun _ => id⟩
  rw [hlast hnone] at htiles
  exact (tiles_middle.1 htiles).2.2.2

/-- Why no block is taken for a request: no block has the size, or no free block was found and the
    region refused to grow. -/
inductive Declines (heap : Heap ρ) (size : Nat) : HeapError → Prop
  | unserved {error : HeapError} : blockSize size = .error error → Declines heap size error
  | starved {needed : Nat} {reason : RegionError} : blockSize size = .ok needed →
    heap.pool.fit? needed = .ok none →
    (Region.grow heap.region (max needed growthUnit)).1 = .error reason →
    Declines heap size (.region reason)

/-- A request for a block is refused, or takes the block that the search found, or the last one of
    an arena that grew because it found none. -/
theorem Sound.takeBlock_takes (h : heap.Sound blocks chains) (size : Nat) (log : Array Event) :
    (∃ error after log', (takeBlock size).runOn heap log = .ok (.error error, after) log' ∧
      heap.Declines size error ∧ heap.Refuses after) ∨
    ∃ needed found whole after log', blockSize size = .ok needed ∧
      (takeBlock size).runOn heap log = .ok (.ok whole.block, after) log' ∧
      heap.Takes after blocks needed found whole := by
  cases hneeded : blockSize size with
  | error error =>
    refine .inl ⟨error, heap, log, ?_, .unserved hneeded, .refl heap⟩
    simp only [takeBlock, RequestM.runOn_bind, RequestM.runOn_liftM_refusal, hneeded]
  | ok needed =>
    obtain ⟨hmod, hge, -, -⟩ := blockSize_spec hneeded
    obtain ⟨found, hsearch⟩ := h.orderly.searches needed
    have hfit := hsearch.fit?_eq
    cases found with
    | some block =>
      obtain ⟨info, hinfo, rfl, hfree, hlarge, -⟩ := hsearch.listed block rfl
      obtain ⟨front, rest, rfl⟩ := List.append_of_mem hinfo
      have hfound : ∀ other ∈ some info.block, other = info.block := by
        rintro _ ⟨⟩
        rfl
      have hcarries := (Refuses.refl heap).carries (held (front ++ info :: rest)) []
      obtain ⟨pool, htake, htakes⟩ :=
        h.takes hfree hmod hge hlarge hfit hfound nofun .same rfl hcarries
      refine .inr ⟨needed, some info.block, info, _, log, rfl, ?_, htakes⟩
      simp only [takeBlock, RequestM.runOn_bind, RequestM.runOn_liftM_refusal, hneeded,
        RequestM.runOn_get, RequestM.runOn_liftM, hfit, htake, RequestM.runOn_set,
        RequestM.runOn_pure]
    | none =>
      have hunit : 32 ≤ max needed growthUnit := Nat.le_trans hge (Nat.le_max_left _ _)
      rcases h.extend_spec hunit log with
        ⟨error, after, log', hextend, hrefuses, hreason⟩ |
        ⟨bytes, front, info, chains₁, middle, log₁, hround, hextend, h₁, hfree, hlengthens, hlen₁,
          hlarge, hcarries₁⟩
      · obtain ⟨reason, hgrow, rfl⟩ := hreason _ (roundUp?_growth hneeded)
        refine .inl ⟨.region reason, after, log'.push (.growthFailed size (.region reason)), ?_,
          .starved hneeded hfit hgrow, hrefuses⟩
        simp only [takeBlock, RequestM.runOn_bind, RequestM.runOn_liftM_refusal, hneeded,
          RequestM.runOn_get, RequestM.runOn_liftM, hfit, RequestM.runOn_tryCatch, hextend,
          RequestM.runOn_record, RequestM.runOn_throw]
      · rw [roundUp?_growth hneeded] at hround
        cases hround
        have hle : needed ≤ info.size := Nat.le_trans (Nat.le_max_left _ _) hlarge
        obtain ⟨pool, htake, htakes⟩ :=
          h₁.takes hfree hmod hge hle hfit nofun (fun _ => rfl) hlengthens hlen₁ hcarries₁
        refine .inr ⟨needed, none, info, _, log₁, rfl, ?_, htakes⟩
        simp only [takeBlock, RequestM.runOn_bind, RequestM.runOn_liftM_refusal, hneeded,
          RequestM.runOn_get, RequestM.runOn_liftM, hfit, RequestM.runOn_tryCatch, hextend, htake,
          RequestM.runOn_set, RequestM.runOn_pure]

section Keeps

variable [KeepsOnRefusal ρ] {after : Heap ρ} {size : Nat} {error : HeapError}
  {log log' : Array Event}

omit [GrowsInPlace ρ] in
/-- Where a refusal leaves the region as it was, it leaves the whole heap. -/
theorem Declines.runOn_takeBlock (h : heap.Declines size error) (log : Array Event) :
    ∃ log', (takeBlock size).runOn heap log = .ok (.error error, heap) log' := by
  cases h with
  | unserved hsize =>
    refine ⟨log, ?_⟩
    simp only [takeBlock, RequestM.runOn_bind, RequestM.runOn_liftM_refusal, hsize]
  | @starved needed reason hneeded hfit hanswer =>
    have hregion := KeepsOnRefusal.eq_of_grow_error (Prod.ext hanswer rfl)
    have hgrow : Region.grow heap.region (max needed growthUnit) = (.error reason, heap.region) :=
      Prod.ext hanswer hregion
    refine ⟨log.push (.growthFailed size (.region reason)), ?_⟩
    simp only [takeBlock, extend, growBy, roundUp?_growth hneeded, RequestM.runOn_bind,
      RequestM.runOn_liftM_refusal, hneeded, RequestM.runOn_get, RequestM.runOn_liftM, hfit,
      RequestM.runOn_tryCatch, hgrow, RequestM.runOn_set, RequestM.runOn_record,
      RequestM.runOn_throw]

theorem Sound.takeBlock_keeps (h : heap.Sound blocks chains)
    (hrun : (takeBlock size).runOn heap log = .ok (.error error, after) log') : after = heap := by
  rcases h.takeBlock_takes size log with
    ⟨_, _, _, hrefused, hdeclines, -⟩ | ⟨_, _, _, _, _, -, hgranted, -⟩
  · obtain ⟨_, hkeeps⟩ := hdeclines.runOn_takeBlock log
    rw [hrun] at hrefused
    cases hrefused
    rw [hrun] at hkeeps
    cases hkeeps
    rfl
  · rw [hrun] at hgranted
    cases hgranted

theorem Sound.request_keeps (h : heap.Sound blocks chains)
    (hrun : (request size).runOn heap log = .ok (.error error, after) log') : after = heap := by
  rcases h.takeBlock_takes size log with
    ⟨_, _, _, htake, -⟩ | ⟨_, _, _, _, _, -, htake, -⟩
  · simp only [request, RequestM.runOn_bind, htake] at hrun
    cases hrun
    exact h.takeBlock_keeps htake
  · simp only [request, RequestM.runOn_bind, htake, RequestM.runOn_get, RequestM.runOn_pure] at hrun
    cases hrun

end Keeps

section Takes

variable {after : Heap ρ} {needed : Nat} {found : Option Block} {whole taken : BlockInfo}
  {behind : Option BlockInfo}

/-- What is taken comes into use beside what was. -/
theorem Takes.grants (h : heap.Takes after blocks needed found whole)
    (hcarve : whole.carve needed = taken :: behind.toList) :
    heap.Grants after (held blocks) taken := by
  obtain ⟨front, rest, chains, hlengthens, -, -, hsound⟩ := h.sound
  obtain ⟨-, hallocated, -, -, hbehind⟩ := BlockInfo.carve_spec hcarve h.large
  rw [hcarve, List.cons_append] at hsound
  refine ⟨⟨_, _, hsound, ?_⟩, h.carries.unwritten _⟩
  have hkept : held blocks = held front ++ held (behind.toList ++ rest) := by
    rw [← hlengthens.held_eq, held_append, held_cons_of_free h.free, held_append behind.toList,
      held_toList hbehind, List.nil_append]
  rw [hkept]
  exact held_middle hallocated front (behind.toList ++ rest)

theorem Takes.places (h : heap.Takes after blocks needed found whole)
    (hsound : heap.Sound blocks chains) (hcarve : whole.carve needed = taken :: behind.toList) :
    heap.Places after needed found whole none taken behind := by
  obtain ⟨front, rest, links, hlengthens, -, htiles, hafter⟩ := h.sound
  obtain ⟨-, hallocated, -, -, hbehind⟩ := BlockInfo.carve_spec hcarve h.large
  rw [hcarve] at hafter
  exact ⟨h.search_eq, h.found_eq, h.stop_eq,
    hsound.exchanges hafter h.len_eq h.free hlengthens htiles, hallocated, nofun, hbehind⟩

/-- What is left of a block is the first that the next search in its class looks at. -/
theorem Takes.head_eq (h : heap.Takes after blocks needed found whole)
    (hcarve : whole.carve needed = taken :: behind.toList) :
    ∀ part ∈ behind, after.pool.index.head (SizeClass.ofSize part.size) = some part.block := by
  rintro part rfl
  obtain ⟨front, rest, links, -, -, -, hafter⟩ := h.sound
  rw [hafter.orderly.represents.threads.head_eq_some]
  rw [BlockInfo.carve] at hcarve
  split at hcarve
  · cases hcarve
  · rename_i hlarge
    cases hcarve
    rw [Chains.carve, if_neg hlarge]
    simp [Chains.push]

end Takes

/-- What a request for an address answers: the address of the block that it took. -/
theorem Sound.request_takes (h : heap.Sound blocks chains) (size : Nat) (log : Array Event) :
    (∃ error after log', (request size).runOn heap log = .ok (.error error, after) log' ∧
      heap.Refuses after) ∨
    ∃ needed found whole after log', blockSize size = .ok needed ∧
      (request size).runOn heap log =
        .ok (.ok (after.pool.arena.address whole.block), after) log' ∧
      heap.Takes after blocks needed found whole := by
  rcases h.takeBlock_takes size log with
    ⟨error, after, log', htake, -, hrefuses⟩ |
    ⟨needed, found, whole, after, log', hneeded, htake, htakes⟩
  · refine .inl ⟨error, after, log', ?_, hrefuses⟩
    simp only [request, RequestM.runOn_bind, htake]
  · refine .inr ⟨needed, found, whole, after, log', hneeded, ?_, htakes⟩
    simp only [request, RequestM.runOn_bind, htake, RequestM.runOn_get, RequestM.runOn_pure]

/-- A request is refused, or grants a block that is large enough. -/
theorem Sound.request_spec (h : heap.Sound blocks chains) (size : Nat) (log : Array Event) :
    (∃ error after log', (request size).runOn heap log = .ok (.error error, after) log' ∧
      heap.Refuses after) ∨
    ∃ needed info after log', blockSize size = .ok needed ∧
      (request size).runOn heap log = .ok (.ok (after.pool.arena.address info.block), after) log' ∧
      heap.Grants after (held blocks) info ∧ needed ≤ info.size := by
  refine (h.request_takes size log).imp_right ?_
  rintro ⟨needed, found, whole, after, log', hneeded, hrequest, htakes⟩
  obtain ⟨taken, behind, hcarve⟩ := whole.exists_carve needed
  obtain ⟨hblock, -, hlarge, -⟩ := BlockInfo.carve_spec hcarve htakes.large
  exact ⟨needed, taken, after, log', hneeded, hblock ▸ hrequest, htakes.grants hcarve, hlarge⟩

/-- Zeros can be written to a block that was granted. -/
theorem Grants.zero_spec {after : Heap ρ} {kept : List BlockInfo} (h : heap.Grants after kept info)
    {count : Nat} (hroom : count + 16 ≤ info.size) :
    let address := after.pool.arena.address info.block
    let zeroed := { after with pool.arena := after.pool.arena.zero address count }
    heap.Grants zeroed kept info ∧ ∀ i < count, zeroed.pool.arena.byte (address + i) = 0 := by
  have hplace : after.pool.arena.address info.block - after.pool.arena.base = info.block.offset :=
    Nat.add_sub_cancel_left _ _
  refine ⟨?_, fun i hi => ?_⟩
  · rw [Arena.zero, hplace]
    exact h.of_payload (h.liesIn.rewrites_zero after.pool.arena.memory hroom)
  · rw [Arena.byte, Arena.zero, hplace, Arena.address, Nat.add_assoc, Nat.add_sub_cancel_left,
      Memory.byte_zero, if_pos (by omega)]

omit [GrowsInPlace ρ] in
theorem runOn_requestZeroed_of_overflow {count size : Nat} (hbig : UInt64.size ≤ count * size)
    (log : Array Event) :
    (requestZeroed count size).runOn heap log = .ok (.error .overflow, heap) log := by
  simp only [requestZeroed, if_pos hbig, RequestM.runOn_bind, RequestM.runOn_throw]

omit [GrowsInPlace ρ] in
/-- A request for zeros is granted what the plain request is, and writes to it. -/
theorem runOn_requestZeroed_of_lt {count size : Nat} (hshort : ¬ UInt64.size ≤ count * size)
    (log : Array Event) :
    (requestZeroed count size).runOn heap log =
      match (request (count * size)).runOn heap log with
      | .ok (.ok address, after) log' =>
        .ok (.ok address,
          { after with pool.arena := after.pool.arena.zero address (count * size) }) log'
      | refused => refused := by
  simp only [requestZeroed, if_neg hshort, RequestM.runOn_bind]
  cases hrequest : (request (count * size)).runOn heap log with
  | error fault log' => simp only
  | ok state log' =>
    obtain ⟨error | address, after⟩ := state
    · simp only
    · simp only [RequestM.runOn_pure, RequestM.runOn_modify]

/-- A request for zeros writes them to the block that it was granted. -/
theorem Sound.requestZeroed_spec (h : heap.Sound blocks chains) (count size : Nat)
    (log : Array Event) :
    (∃ error after log',
      (requestZeroed count size).runOn heap log = .ok (.error error, after) log' ∧
      heap.Refuses after) ∨
    ∃ needed info after log', blockSize (count * size) = .ok needed ∧
      (requestZeroed count size).runOn heap log =
        .ok (.ok (after.pool.arena.address info.block), after) log' ∧
      heap.Grants after (held blocks) info ∧ needed ≤ info.size ∧
      ∀ i < count * size,
        after.pool.arena.byte (after.pool.arena.address info.block + i) = 0 := by
  by_cases hbig : UInt64.size ≤ count * size
  · exact .inl ⟨.overflow, heap, log, runOn_requestZeroed_of_overflow hbig log, .refl heap⟩
  · rw [runOn_requestZeroed_of_lt hbig]
    rcases h.request_spec (count * size) log with
      ⟨error, after, log', hrequest, hrefuses⟩ |
      ⟨needed, info, after, log', hneeded, hrequest, hgrants, hlarge⟩
    · refine .inl ⟨error, after, log', ?_, hrefuses⟩
      rw [hrequest]
    · obtain ⟨-, -, hroom, -⟩ := blockSize_spec hneeded
      obtain ⟨hzeroed, hzeros⟩ := hgrants.zero_spec (Nat.le_trans hroom hlarge)
      refine .inr ⟨needed, info, _, log', hneeded, ?_, hzeroed, hlarge, hzeros⟩
      rw [hrequest]
      rfl

end Heap

end BoundaryTag
