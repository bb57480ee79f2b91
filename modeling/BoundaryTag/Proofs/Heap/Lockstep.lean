import BoundaryTag.Proofs.Heap.Aligned
import BoundaryTag.Proofs.Heap.Release
import BoundaryTag.Proofs.Heap.Twins
import Mathlib.Data.Nat.ModEq

namespace BoundaryTag

/-- Places that are alike for the alignment are at the same distance from its next multiple. -/
theorem gapTo?_eq_of_mod_eq {align here there : Nat} (hpower : IsPowerOfTwo align)
    (hmod : there % align = here % align) (hhere : here + align ≤ UInt64.size)
    (hthere : there + align ≤ UInt64.size) : gapTo? there align = gapTo? here align := by
  cases hgap : gapTo? here align with
  | none => exact absurd (gapTo?_eq_none hpower hgap) (Nat.not_lt.2 hhere)
  | some gap =>
    cases hother : gapTo? there align with
    | none => exact absurd (gapTo?_eq_none hpower hother) (Nat.not_lt.2 hthere)
    | some other =>
      obtain ⟨hsum, hlt⟩ := gapTo?_spec hgap
      obtain ⟨hothersum, hotherlt⟩ := gapTo?_spec hother
      have hsame : there + other ≡ there + gap [MOD align] :=
        (hothersum.trans hsum.symm).trans (Nat.ModEq.add_right gap hmod.symm)
      have heq : other ≡ gap [MOD align] := Nat.ModEq.add_left_cancel' there hsame
      rw [heq.eq_of_lt_of_lt hotherlt hlt]

theorem leadBytes_eq_of_mod_eq (build : Build) {align here there : Nat}
    (hpower : IsPowerOfTwo align) (hmod : there % align = here % align)
    (hhere : here + align ≤ UInt64.size) (hthere : there + align ≤ UInt64.size) :
    leadBytes build there align = leadBytes build here align := by
  rw [leadBytes, leadBytes, gapTo?_eq_of_mod_eq hpower hmod hhere hthere]

variable {ρ σ : Type} [Region ρ] [GrowsByLength ρ] [Region σ] [GrowsByLength σ]

namespace Heap

variable {here there : Nat} {heap after : Heap ρ} {twin : Heap σ} {log : Array Event}

/-- Takes a free block into use for `needed` bytes. -/
def use (needed : Nat) (block : Block) : RequestM ρ Block := do
  let heap ← get
  set { heap with pool := ← heap.pool.take block needed }
  return block

section

omit [GrowsByLength ρ]

variable {size needed : Nat} (hneeded : blockSize size = .ok needed)

include hneeded

theorem runOn_takeBlock_of_some {block : Block} (hfit : heap.pool.fit? needed = .ok (some block)) :
    (takeBlock size).runOn heap log = (use needed block).runOn heap log := by
  simp only [takeBlock, use, RequestM.runOn_bind, RequestM.runOn_liftM_refusal, hneeded,
    RequestM.runOn_get, RequestM.runOn_liftM, hfit, RequestM.runOn_pure]

theorem runOn_takeBlock_of_none (hfit : heap.pool.fit? needed = .ok none) :
    (takeBlock size).runOn heap log =
      (tryCatch (extend (max needed growthUnit)) (fun error => do
        record (.growthFailed size error)
        throw error) >>= use needed).runOn heap log := by
  simp only [takeBlock, use, RequestM.runOn_bind, RequestM.runOn_liftM_refusal, hneeded,
    RequestM.runOn_get, RequestM.runOn_liftM, hfit]

theorem runOn_takeBlock_of_error {fault : Fault} (hfit : heap.pool.fit? needed = .error fault) :
    (takeBlock size).runOn heap log = .error fault log := by
  simp only [takeBlock, RequestM.runOn_bind, RequestM.runOn_liftM_refusal, hneeded,
    RequestM.runOn_get, RequestM.runOn_liftM, hfit]

end

namespace Twins

theorem growBy (h : Twins here there heap twin)
    (hlen : heap.pool.arena.len = Region.len heap.region) {bytes : Nat} (hbytes : 0 < bytes)
    (log : Array Event) :
    Matches here there (SameVerdict Eq) ((growBy bytes).runOn heap log)
      ((growBy bytes).runOn twin log) := by
  have hbase : heap.pool.arena.base = Region.base heap.region := h.base_eq.trans h.region_eq.symm
  have htwinbase : twin.pool.arena.base = Region.base twin.region := by
    rw [h.pool_eq, h.twin_region_eq]
    rfl
  have htwinlen : twin.pool.arena.len = Region.len twin.region := by
    rw [h.pool_eq, h.twin_len_eq]
    exact hlen
  have hsame :=
    GrowsByLength.error_iff h.obliging h.twin_obliging h.twin_len_eq h.twin_capacity_eq bytes
  have hregion := GrowsByLength.obliging_grow h.obliging bytes
  have hother := GrowsByLength.obliging_grow h.twin_obliging bytes
  rcases growBy_spec heap hbase hlen h.addressable hbytes log with
    ⟨error, after, hanswer, hrun, hafter, hrefuses⟩ |
    ⟨region, ⟨address, hgrow⟩, hrun, hbase', hlen', -, -, hcapacity⟩ <;>
  rcases growBy_spec twin htwinbase htwinlen h.twin_addressable hbytes log with
    ⟨error', after', hanswer', hrun', hafter', hrefuses'⟩ |
    ⟨region', ⟨address', hgrow'⟩, hrun', hbase'', hlen'', -, -, hcapacity'⟩
  · obtain rfl : error' = error := by
      rw [(hsame error).2 hanswer] at hanswer'
      exact (Except.error.inj hanswer').symm
    rw [hrun, hrun']
    rw [← hafter] at hregion
    rw [← hafter'] at hother
    exact .answered (.refused _) (h.of_refuses hrefuses hrefuses' hregion hother)
  · have hboth := (hsame error).2 hanswer
    rw [hgrow'] at hboth
    cases hboth
  · have hboth := (hsame error').1 hanswer'
    rw [hgrow] at hboth
    cases hboth
  · rw [hgrow] at hregion
    rw [hgrow'] at hother
    rw [hrun, hrun']
    refine .answered (.granted ?_) ⟨h.base_eq, by rw [hbase', h.region_eq], ?_, hregion, ?_,
      by rw [hbase'', h.twin_region_eq], ?_, by rw [hcapacity', hcapacity, h.twin_capacity_eq], ?_,
      hother⟩
    · rw [h.pool_eq]
      rfl
    · rw [Region.Addressable, hbase', hcapacity]
      exact h.addressable
    · rw [h.pool_eq]
      rfl
    · rw [hlen', hlen'', h.pool_eq]
      rfl
    · rw [Region.Addressable, hbase'', hcapacity']
      exact h.twin_addressable

theorem extend (h : Twins here there heap twin)
    (hlen : heap.pool.arena.len = Region.len heap.region) {bytes : Nat} (hbytes : 0 < bytes)
    (log : Array Event) :
    Matches here there (SameVerdict Eq) ((extend bytes).runOn heap log)
      ((extend bytes).runOn twin log) := by
  cases hround : roundUp? bytes alignment with
  | none =>
    simp only [Heap.extend, hround, RequestM.runOn_throw]
    exact .answered (.refused _) h
  | some size =>
    have hsize : 0 < size := Nat.lt_of_lt_of_le hbytes (roundUp?_spec hround).2.2.1
    simp only [Heap.extend, hround]
    refine (h.growBy hlen hsize log).bind_request ?_
    rintro start _ after after' log' rfl htwins
    cases Block.ofOffset? start with
    | none => exact .answered (.refused _) htwins
    | some block =>
      simp only [RequestM.runOn_bind, RequestM.runOn_get, RequestM.runOn_liftM]
      cases happend : after.pool.append block size with
      | error fault => exact .failed
      | ok listed =>
        obtain ⟨happend', hlisted⟩ :=
          htwins.of_pool (·.append block size) (after.pool.append_moveTo · block size) happend
        simp only [happend', RequestM.runOn_record]
        cases hcoalesce : listed.coalesce block with
        | error fault => exact .failed
        | ok merged =>
          obtain ⟨hcoalesce', hmerged⟩ :=
            hlisted.of_pair (·.coalesce block) (listed.coalesce_moveTo · block) hcoalesce
          simp only [hcoalesce', RequestM.runOn_set, RequestM.runOn_pure]
          exact .answered (.granted rfl) hmerged

theorem use (h : Twins here there heap twin) (needed : Nat) (block : Block) (log : Array Event) :
    Matches here there (SameVerdict Eq) ((use needed block).runOn heap log)
      ((use needed block).runOn twin log) := by
  simp only [Heap.use, RequestM.runOn_bind, RequestM.runOn_get, RequestM.runOn_liftM]
  cases htake : heap.pool.take block needed with
  | error fault => exact .failed
  | ok pool =>
    obtain ⟨htake', hpool⟩ :=
      h.of_pool (·.take block needed) (heap.pool.take_moveTo · block needed) htake
    simp only [htake', RequestM.runOn_set, RequestM.runOn_pure]
    exact .answered (.granted rfl) hpool

theorem takeBlock (h : Twins here there heap twin)
    (hlen : heap.pool.arena.len = Region.len heap.region) (size : Nat) (log : Array Event) :
    Matches here there (SameVerdict Eq) ((takeBlock size).runOn heap log)
      ((takeBlock size).runOn twin log) := by
  cases hneeded : blockSize size with
  | error error =>
    simp only [Heap.takeBlock, RequestM.runOn_bind, RequestM.runOn_liftM_refusal, hneeded]
    exact .answered (.refused error) h
  | ok needed =>
    have hsame : twin.pool.fit? needed = heap.pool.fit? needed := by
      rw [h.pool_eq, Pool.fit?_moveTo]
    cases hfit : heap.pool.fit? needed with
    | error fault =>
      rw [runOn_takeBlock_of_error hneeded hfit]
      exact .failed
    | ok found =>
      cases found with
      | some block =>
        rw [runOn_takeBlock_of_some hneeded hfit,
          runOn_takeBlock_of_some hneeded (hsame.trans hfit)]
        exact h.use needed block log
      | none =>
        have hunit : 0 < max needed growthUnit :=
          Nat.lt_of_lt_of_le (by decide) (Nat.le_max_right needed growthUnit)
        have hextend := (h.extend hlen hunit log).tryCatch (.growthFailed size)
        rw [runOn_takeBlock_of_none hneeded hfit,
          runOn_takeBlock_of_none hneeded (hsame.trans hfit)]
        exact hextend.bind_request fun a b _ _ log' hab htwins => hab ▸ htwins.use needed a log'

theorem request (h : Twins here there heap twin)
    (hlen : heap.pool.arena.len = Region.len heap.region) (size : Nat) (log : Array Event) :
    Matches here there (SameVerdict (SameOffset here there)) ((request size).runOn heap log)
      ((request size).runOn twin log) := by
  refine (h.takeBlock hlen size log).bind_request ?_
  rintro block _ after after' log' rfl htwins
  simp only [RequestM.runOn_bind, RequestM.runOn_get, RequestM.runOn_pure]
  refine .answered (.granted ⟨block.offset, ?_, ?_⟩) htwins
  · rw [Arena.address, htwins.base_eq]
  · rw [Arena.address, htwins.pool_eq]
    rfl

theorem zero (h : Twins here there heap twin) (offset count : Nat) :
    Twins here there { heap with pool.arena := heap.pool.arena.zero (here + offset) count }
      { twin with pool.arena := twin.pool.arena.zero (there + offset) count } := by
  have hzero := heap.pool.arena.zero_moveTo there offset count
  rw [h.base_eq] at hzero
  rw [h.pool_eq, Pool.arena_moveTo, hzero]
  exact h.with_pool rfl

theorem requestZeroed (h : Twins here there heap twin)
    (hlen : heap.pool.arena.len = Region.len heap.region) (count size : Nat) (log : Array Event) :
    Matches here there (SameVerdict (SameOffset here there))
      ((requestZeroed count size).runOn heap log) ((requestZeroed count size).runOn twin log) := by
  by_cases hbig : UInt64.size ≤ count * size
  · rw [runOn_requestZeroed_of_overflow hbig, runOn_requestZeroed_of_overflow hbig]
    exact .answered (.refused _) h
  · simp only [Heap.requestZeroed, if_neg hbig]
    refine (h.request hlen (count * size) log).bind_request ?_
    rintro _ _ after after' log' ⟨offset, rfl, rfl⟩ htwins
    simp only [RequestM.runOn_bind, RequestM.runOn_modify, RequestM.runOn_pure]
    exact .answered (.granted ⟨offset, rfl, rfl⟩) (htwins.zero offset _)

/-- Where a block was taken that has room for any lead, both places get the same lead. -/
theorem leadBytes_eq (h : Twins here there heap twin) {blocks : List BlockInfo} {chains : Chains}
    (hsound : heap.Sound blocks chains) {info : BlockInfo} (hinfo : info ∈ blocks) {align : Nat}
    (hpower : IsPowerOfTwo align) (hmod : there % align = here % align)
    (hroom : align ≤ info.size) :
    leadBytes twin.pool.arena.build (twin.pool.arena.address info.block) align =
      leadBytes heap.pool.arena.build (heap.pool.arena.address info.block) align := by
  have hstop := (hsound.orderly.represents.laid.liesIn hinfo).stop_le
  have hlen := hsound.len_le
  have hhere := h.addressable
  have hthere := h.twin_addressable
  rw [Region.Addressable, h.region_eq] at hhere
  rw [Region.Addressable, h.twin_region_eq, h.twin_capacity_eq] at hthere
  unfold BlockInfo.stop at hstop
  rw [h.pool_eq, Arena.address, Arena.address, h.base_eq]
  exact leadBytes_eq_of_mod_eq _ hpower (Nat.ModEq.add_right info.block.offset hmod)
    (by omega) (by simp only [Pool.arena_moveTo, Arena.base_moveTo]; omega)

/-- Cutting an aligned block out of one that was taken. -/
theorem align (h : Twins here there heap twin) {block part : Block} {lead needed : Nat}
    {middle pool : Pool} (hsplit : heap.pool.splitLead block lead = .ok (part, middle))
    (htail : middle.splitTail part needed = .ok pool) :
    twin.pool.splitLead block lead = .ok (part, middle.moveTo there) ∧
      (middle.moveTo there).splitTail part needed = .ok (pool.moveTo there) ∧
      Twins here there { heap with pool } { twin with pool := pool.moveTo there } := by
  obtain ⟨hsplit', hmiddle⟩ :=
    h.of_pair (·.splitLead block lead) (heap.pool.splitLead_moveTo · block lead) hsplit
  obtain ⟨htail', hpool⟩ :=
    hmiddle.of_pool (·.splitTail part needed) (middle.splitTail_moveTo · part needed) htail
  exact ⟨hsplit', htail', hpool⟩

/-- Aligning is the only work whose outcome depends on the place, and no more of the place counts
    than where it stands between multiples of the alignment. -/
theorem requestAligned (h : Twins here there heap twin) {blocks : List BlockInfo} {chains : Chains}
    (hsound : heap.Sound blocks chains) {align : Nat}
    (hmod : IsPowerOfTwo align → there % align = here % align) (size : Nat) (log : Array Event) :
    Matches here there (SameVerdict (SameOffset here there))
      ((requestAligned align size).runOn heap log)
      ((requestAligned align size).runOn twin log) := by
  by_cases hpower : IsPowerOfTwo align
  · by_cases hsmall : align ≤ alignment
    · rw [requestAligned_of_le hpower hsmall, requestAligned_of_le hpower hsmall]
      exact h.request hsound.len_eq size log
    · have hlarge := Nat.lt_of_not_le hsmall
      cases hneeded : blockSize size with
      | error error =>
        rw [runOn_requestAligned_of_unserved hpower hlarge hneeded,
          runOn_requestAligned_of_unserved hpower hlarge hneeded]
        exact .answered (.refused error) h
      | ok needed =>
        by_cases hbig : UInt64.size ≤ needed + align + smallestBlock
        · rw [runOn_requestAligned_of_overflow hpower hlarge hneeded hbig,
            runOn_requestAligned_of_overflow hpower hlarge hneeded hbig]
          exact .answered (.refused _) h
        · have htakes := h.takeBlock hsound.len_eq (needed + align + smallestBlock - tagBytes) log
          simp only [Heap.requestAligned, not_true, hpower, if_false, if_neg hsmall,
            RequestM.runOn_bind, RequestM.runOn_liftM_refusal, hneeded, if_neg hbig,
            RequestM.runOn_get, RequestM.runOn_liftM, sub_tagBytes_eq_ok]
          rcases hsound.takeBlock_takes (needed + align + smallestBlock - tagBytes) log with
            ⟨error, after, log', htake, -⟩ |
            ⟨padded, found, whole, after, log', hpadded, htake, hafter⟩
          · rw [htake] at htakes ⊢
            obtain ⟨answer, after', htake', hverdict, htwins⟩ := htakes.of_ok
            cases hverdict
            rw [htake']
            exact .answered (.refused error) htwins
          · rw [htake] at htakes ⊢
            obtain ⟨answer, after', htake', hverdict, htwins⟩ := htakes.of_ok
            cases hverdict with
            | granted hblock =>
              subst hblock
              obtain ⟨hneededMod, hneededGe, -, -⟩ := blockSize_spec hneeded
              obtain ⟨-, -, hroom, -⟩ := blockSize_spec hpadded
              simp only [smallestBlock, tagBytes] at hroom
              obtain ⟨lead, part, middle, pool, taken, before, behind, hlead, hsplit, htail, rfl,
                -⟩ := hafter.align_spec hsound hpower hlarge hneededMod
                  hneededGe (by omega)
              obtain ⟨info, remainder, hcarve⟩ := whole.exists_carve padded
              obtain ⟨hstart, -, hlarge, -⟩ := BlockInfo.carve_spec hcarve hafter.large
              obtain ⟨infos, chains', hinfos, hheld⟩ := (hafter.grants hcarve).sound
              have hinfo := (mem_held.1 (hheld.mem_iff.2 List.mem_cons_self)).1
              have hlead' := htwins.leadBytes_eq hinfos hinfo hpower (hmod hpower) (by omega)
              rw [hstart] at hlead'
              obtain ⟨hsplit', htail', hpool⟩ := htwins.align hsplit htail
              simp only [htake', RequestM.runOn_bind, RequestM.runOn_liftM, hlead'.trans hlead,
                hlead, hsplit, hsplit', htail, htail', RequestM.runOn_set, RequestM.runOn_pure]
              refine .answered (.granted ⟨taken.block.offset, ?_, rfl⟩) hpool
              rw [Arena.address, hpool.base_eq]
  · rw [runOn_requestAligned_of_not hpower, runOn_requestAligned_of_not hpower]
    exact .answered (.refused _) h

theorem fill (h : Twins here there heap twin) (offset count : Nat) (f : Nat → UInt8) :
    Twins here there { heap with pool.arena := heap.pool.arena.fill (here + offset) count f }
      { twin with pool.arena := twin.pool.arena.fill (there + offset) count f } := by
  have hfill := heap.pool.arena.fill_moveTo there offset count f
  rw [h.base_eq] at hfill
  rw [h.pool_eq, Pool.arena_moveTo, hfill]
  exact h.with_pool rfl

theorem copy (h : Twins here there heap twin) (source target count : Nat) (log : Array Event) :
    Matches here there Eq ((copy (here + source) (here + target) count).runOn heap log)
      ((copy (there + source) (there + target) count).runOn twin log) := by
  have hcopy := heap.pool.arena.copy_moveTo there source target count
  rw [h.base_eq] at hcopy
  rw [Heap.copy, Heap.copy, HeapM.runOn_modify, HeapM.runOn_modify, h.pool_eq, Pool.arena_moveTo,
    hcopy]
  exact .answered rfl (h.with_pool rfl)

theorem release (h : Twins here there heap twin) (given : Option Nat) (log : Array Event) :
    Matches here there Eq ((release (given.map (here + ·))).runOn heap log)
      ((release (given.map (there + ·))).runOn twin log) := by
  cases given with
  | none => exact .answered rfl h
  | some offset =>
    simp only [Heap.release, Option.map_some, HeapM.runOn_bind, HeapM.runOn_get, HeapM.runOn_liftM]
    cases hrelease : heap.pool.release (here + offset) with
    | error fault => exact .failed
    | ok pool =>
      have hmoved : ∀ base, (heap.pool.moveTo base).release (base + offset) =
          .ok (pool.moveTo base) := fun base =>
        heap.pool.release_moveTo base (h.base_eq ▸ hrelease)
      have hself := hmoved here
      rw [← h.base_eq, show heap.pool.moveTo heap.pool.arena.base = heap.pool from rfl, h.base_eq,
        hrelease] at hself
      rw [h.pool_eq, hmoved there]
      have hbase : pool.arena.base = here :=
        congrArg (fun pool => pool.arena.base) (Except.ok.inj hself)
      exact .answered rfl (h.with_pool (hbase.trans h.base_eq.symm))

/-- What was granted at one offset is filled from one offset. -/
theorem relocate {request : HeapM ρ (Option Nat)} {other : HeapM σ (Option Nat)}
    (h : Matches here there (Option.Rel (SameOffset here there)) (request.runOn heap log)
      (other.runOn twin log)) (offset count : Nat) :
    Matches here there (Option.Rel (SameOffset here there))
      ((relocate request (here + offset) count).runOn heap log)
      ((relocate other (there + offset) count).runOn twin log) := by
  refine h.bind ?_
  rintro _ _ after after' log' (⟨target, rfl, rfl⟩ | _) htwins
  · refine (htwins.copy offset target count log').bind ?_
    rintro _ _ copied copied' log' - hcopied
    refine (hcopied.release (some offset) log').bind ?_
    rintro _ _ last last' log' - hlast
    exact .answered (.some ⟨target, rfl, rfl⟩) hlast
  · exact .answered .none htwins

theorem resize (h : Twins here there heap twin)
    (hlen : heap.pool.arena.len = Region.len heap.region) (given : Option Nat) (size : Nat)
    (log : Array Event) :
    Matches here there (Option.Rel (SameOffset here there))
      ((resize (given.map (here + ·)) size).runOn heap log)
      ((resize (given.map (there + ·)) size).runOn twin log) := by
  cases given with
  | none => exact (h.request hlen size log).granted
  | some offset =>
    rw [Option.map_some, Option.map_some]
    by_cases hsize : size = 0
    · simp only [Heap.resize, if_pos hsize]
      refine (h.release (some offset) log).bind ?_
      rintro _ _ after after' log' - htwins
      exact .answered .none htwins
    · have hblock : twin.pool.arena.blockAt? (there + offset) =
          heap.pool.arena.blockAt? (here + offset) := by
        rw [h.pool_eq, Pool.arena_moveTo, Arena.blockAt?_moveTo, h.base_eq]
      cases hfound : heap.pool.arena.blockAt? (here + offset) with
      | none =>
        simp only [Heap.resize, if_neg hsize, HeapM.runOn_bind, HeapM.runOn_get, hblock, hfound]
        exact .answered .none h
      | some block =>
        have hsame : twin.pool.arena.usableBytes block = heap.pool.arena.usableBytes block := by
          rw [h.pool_eq]
          rfl
        cases husable : heap.pool.arena.usableBytes block with
        | error fault =>
          simp only [Heap.resize, if_neg hsize, HeapM.runOn_bind, HeapM.runOn_get, hfound,
            HeapM.runOn_liftM, husable]
          exact .failed
        | ok usable =>
          rw [runOn_resize hsize hfound husable,
            runOn_resize hsize (hblock.trans hfound) (hsame.trans husable)]
          exact relocate (h.request hlen size log).granted offset (min size usable)

end Twins

section Create

/-- Gives an arena that is laid out its first free block. -/
def seed : RequestM ρ Unit := do
  let first ← extend growthUnit
  let heap ← get
  record (.ready (← heap.pool.arena.header first).size)

omit [GrowsByLength ρ] in
theorem runOn_setUp {start : Nat} {pool : Pool}
    (hgrow : (growBy frontBytes).runOn heap log = .ok (.ok start, after) log)
    (hlay : after.pool.layOut start = .ok pool) :
    setUp.runOn heap log = seed.runOn { after with pool } log := by
  simp only [setUp, seed, RequestM.runOn_bind, hgrow, RequestM.runOn_get, RequestM.runOn_liftM,
    hlay, RequestM.runOn_set]

theorem Twins.seed (h : Twins here there heap twin)
    (hlen : heap.pool.arena.len = Region.len heap.region) (log : Array Event) :
    Matches here there (SameVerdict Eq) (seed.runOn heap log) (seed.runOn twin log) := by
  have hunit : 0 < growthUnit := by decide
  refine (h.extend hlen hunit log).bind_request ?_
  rintro first _ after after' log' rfl htwins
  have hheader : after'.pool.arena.header first = after.pool.arena.header first := by
    rw [htwins.pool_eq]
    rfl
  simp only [RequestM.runOn_bind, RequestM.runOn_get, RequestM.runOn_liftM, hheader]
  cases after.pool.arena.header first with
  | error fault => exact .failed
  | ok tag => exact .answered (.granted rfl) htwins

variable {region : ρ} {other : σ} (hlen : Region.len other = Region.len region)
  (hcapacity : GrowsInPlace.capacity other = GrowsInPlace.capacity region)
  (hspace : Region.Addressable region) (hother : Region.Addressable other)
  (hobliging : GrowsByLength.Obliging region) (hotherObliging : GrowsByLength.Obliging other)

include hlen hcapacity hspace hother hobliging hotherObliging

theorem setUp_twins (build : Build) (memory : Memory) (hempty : Region.len region = 0)
    (log : Array Event) :
    Matches (Region.base region) (Region.base other) (SameVerdict Eq)
      (setUp.runOn (empty build region memory) log)
      (setUp.runOn (empty build other memory) log) := by
  have htwins : Twins (Region.base region) (Region.base other) (empty build region memory)
      (empty build other memory) :=
    ⟨rfl, rfl, hspace, hobliging, rfl, rfl, hlen, hcapacity, hother, hotherObliging⟩
  have hfront : 0 < frontBytes := by decide
  have hgrows := htwins.growBy hempty.symm hfront log
  rcases growBy_spec (empty build region memory) rfl hempty.symm hspace hfront log with
    ⟨error, after, -, hgrow, -⟩ | ⟨grown, -, hgrow, -, hlen', -, -, -⟩
  · rw [hgrow] at hgrows
    obtain ⟨_, after', hgrow', ⟨⟩, hafter⟩ := hgrows.of_ok
    simp only [setUp, RequestM.runOn_bind, hgrow, hgrow']
    exact .answered (.refused _) hafter
  · rw [hgrow] at hgrows
    obtain ⟨_, after', hgrow', ⟨⟨⟩⟩, hafter⟩ := hgrows.of_ok
    obtain ⟨laid, hlayOut, -⟩ := Pool.layOut_eq build (Region.base region) memory
    have hlay : ((empty build region memory).pool.grown frontBytes).layOut
        (empty build region memory).pool.arena.len = .ok _ := hlayOut
    obtain ⟨hlay', hlaid⟩ := hafter.of_pool (·.layOut (empty build region memory).pool.arena.len)
      (((empty build region memory).pool.grown frontBytes).layOut_moveTo · _) hlay
    rw [runOn_setUp hgrow hlay, runOn_setUp hgrow' hlay']
    exact hlaid.seed hlen'.symm log

/-- Over both regions a heap is created, or over none of them, for the same reason. -/
theorem create_twins (hmod : Region.base other % 16 = Region.base region % 16) (build : Build)
    (memory : Memory) (log : Array Event) :
    ∃ log', (∃ error, (create build region memory).run log = .ok (.error error) log' ∧
        (create build other memory).run log = .ok (.error error) log') ∨
      ∃ heap twin, (create build region memory).run log = .ok (.ok heap) log' ∧
        (create build other memory).run log = .ok (.ok twin) log' ∧
        Twins (Region.base region) (Region.base other) heap twin := by
  have halike : Region.isEmpty other ∧ isMultiple? (Region.base other) alignment = some true ↔
      Region.isEmpty region ∧ isMultiple? (Region.base region) alignment = some true := by
    rw [Region.isEmpty, Region.isEmpty, hlen, isMultiple?_eq, isMultiple?_eq, alignment, hmod]
  by_cases hstart : Region.isEmpty region ∧ isMultiple? (Region.base region) alignment = some true
  · have hempty : Region.len region = 0 := by simpa [Region.isEmpty] using hstart.1
    have hbase : Region.base region % 16 = 0 := by
      have hbase := hstart.2
      rw [isMultiple?_eq, if_pos (by decide)] at hbase
      simpa using hbase
    obtain ⟨answer, after, log', hrun, -⟩ := setUp_spec build memory hempty hbase hspace log
    have htwins :=
      setUp_twins hlen hcapacity hspace hother hobliging hotherObliging build memory hempty log
    rw [hrun] at htwins
    obtain ⟨answer', after', hrun', hverdict, hafter⟩ := htwins.of_ok
    have hcreate := runOn_create hstart hrun
    have hcreate' := runOn_create (halike.2 hstart) hrun'
    cases hverdict with
    | refused error => exact ⟨log', .inl ⟨error, hcreate, hcreate'⟩⟩
    | granted => exact ⟨log', .inr ⟨after, after', hcreate, hcreate', hafter⟩⟩
  · exact ⟨log, .inl ⟨_, runOn_create_refused hstart memory log,
      runOn_create_refused (mt halike.1 hstart) memory log⟩⟩

end Create

end Heap

end BoundaryTag
