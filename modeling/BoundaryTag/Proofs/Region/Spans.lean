import BoundaryTag.Proofs.Region

namespace BoundaryTag

/-- A span of memory. -/
structure Span where
  start : Nat
  bytes : Nat
deriving DecidableEq, Repr

namespace Span

def stop (span : Span) : Nat := span.start + span.bytes

def Before (span other : Span) : Prop := span.stop ≤ other.start

def total : List Span → Nat
  | [] => 0
  | span :: spans => span.bytes + total spans

/-- The spans lie one after the other from `start` to `stop`, with nothing between them. -/
def Fill : List Span → Nat → Nat → Prop
  | [], start, stop => start = stop
  | span :: spans, start, stop => span.start = start ∧ Fill spans span.stop stop

variable {spans : List Span} {start stop : Nat}

theorem Fill.stop_eq (h : Fill spans start stop) : stop = start + total spans := by
  induction spans generalizing start with
  | nil => exact h.symm
  | cons span spans ih =>
    obtain ⟨hstart, hrest⟩ := h
    rw [ih hrest, Span.stop, hstart, total, Nat.add_assoc]

theorem Fill.le_start (h : Fill spans start stop) : ∀ span ∈ spans, start ≤ span.start := by
  induction spans generalizing start with
  | nil => exact List.forall_mem_nil _
  | cons first spans ih =>
    obtain ⟨hstart, hrest⟩ := h
    have hfirst : start ≤ first.stop := hstart ▸ Nat.le_add_right _ _
    exact List.forall_mem_cons.2
      ⟨Nat.le_of_eq hstart.symm, fun span hspan => Nat.le_trans hfirst (ih hrest span hspan)⟩

/-- Spans that lie one after the other do not meet. -/
theorem Fill.pairwise (h : Fill spans start stop) : spans.Pairwise Before := by
  induction spans generalizing start with
  | nil => exact .nil
  | cons first spans ih => exact .cons h.2.le_start (ih h.2)

end Span

namespace Region

variable {ρ : Type} [Region ρ]

/-- Asks a region to grow by each of the requests in turn. The answer is what it granted, and what
    it has become. -/
def growAll (region : ρ) : List Nat → List Span × ρ
  | [] => ([], region)
  | bytes :: requests =>
    let (answer, grown) := grow region bytes
    let (spans, last) := growAll grown requests
    (answer.toOption.toList.map (⟨·, bytes⟩) ++ spans, last)

theorem growAll_cons_of_ok {region grown : ρ} {bytes address : Nat}
    (h : grow region bytes = (.ok address, grown)) (requests : List Nat) :
    growAll region (bytes :: requests) =
      (⟨address, bytes⟩ :: (growAll grown requests).1, (growAll grown requests).2) := by
  simp [growAll, h, Except.toOption]

theorem growAll_cons_of_error {region grown : ρ} {bytes : Nat} {error : RegionError}
    (h : grow region bytes = (.error error, grown)) (requests : List Nat) :
    growAll region (bytes :: requests) = growAll grown requests := by
  simp [growAll, h, Except.toOption]

theorem contains_iff {region : ρ} {address : Nat} :
    contains region address = true ↔
      base region ≤ address ∧ address < base region + len region := by
  rw [contains, Bool.and_eq_true, decide_eq_true_iff, decide_eq_true_iff]
  omega

open GrowsInPlace (capacity)

/-- What a region answers to a request: it grants at its end what fits, and a refusal leaves it as
    it was. -/
structure Answers [GrowsInPlace ρ] (region : ρ) (bytes : Nat) : Prop where
  granted : len region + bytes ≤ capacity region → ∃ grown,
    grow region bytes = (.ok (base region + len region), grown) ∧
      base grown = base region ∧ capacity grown = capacity region ∧
      len grown = len region + bytes
  refused : capacity region < len region + bytes → grow region bytes =
    (.error (if UInt64.size ≤ len region + bytes then .overflow else .exhausted), region)

/-- What a region that had nothing has become when it handed out `spans`. -/
structure HandsOut [GrowsInPlace ρ] (region : ρ) (spans : List Span) (last : ρ) : Prop where
  base_eq : base last = base region
  base_mod : base last % 16 = 0
  capacity_eq : capacity last = capacity region
  len_eq : len last = Span.total spans
  len_le : len last ≤ capacity last
  fill : Span.Fill spans (base last) (base last + len last)
  apart : spans.Pairwise Span.Before
  contains_iff : ∀ address, contains last address = true ↔
    base last ≤ address ∧ address < base last + len last
  answers : ∀ bytes, Answers last bytes

variable [GrowsByLength ρ] [KeepsOnRefusal ρ] {region : ρ}

theorem answers (hobliging : GrowsByLength.Obliging region)
    (hshort : capacity region < UInt64.size) (bytes : Nat) : Answers region bytes := by
  have hanswer := GrowsByLength.grow_eq hobliging bytes
  cases hgrow : grow region bytes with
  | mk answer grown =>
    rw [hgrow] at hanswer
    refine ⟨fun hroom => ?_, fun hfull => ?_⟩
    · obtain rfl : answer = .ok (base region + len region) := by
        rwa [if_neg (by omega), if_neg (by omega)] at hanswer
      obtain ⟨-, hbase, hlen, -, -, hcapacity⟩ := GrowsInPlace.grow_ok hgrow
      exact ⟨grown, hgrow, hbase, hcapacity, hlen⟩
    · obtain rfl : answer =
          .error (if UInt64.size ≤ len region + bytes then .overflow else .exhausted) := by
        rw [if_pos hfull] at hanswer
        exact hanswer.trans (by split <;> rfl)
      rw [hgrow, KeepsOnRefusal.eq_of_grow_error hgrow]

/-- What was handed out lies one after the other, from where the region ended to where it ends. -/
theorem growAll_spec (hobliging : GrowsByLength.Obliging region)
    (hshort : capacity region < UInt64.size) (hlen : len region ≤ capacity region)
    (requests : List Nat) :
    GrowsByLength.Obliging (growAll region requests).2 ∧
      base (growAll region requests).2 = base region ∧
      capacity (growAll region requests).2 = capacity region ∧
      len (growAll region requests).2 ≤ capacity region ∧
      Span.Fill (growAll region requests).1 (base region + len region)
        (base region + len (growAll region requests).2) := by
  induction requests generalizing region with
  | nil => exact ⟨hobliging, rfl, rfl, hlen, rfl⟩
  | cons bytes requests ih =>
    obtain ⟨hgranted, hrefused⟩ := answers hobliging hshort bytes
    by_cases hroom : len region + bytes ≤ capacity region
    · obtain ⟨grown, hgrow, hbase, hcapacity, hgrown⟩ := hgranted hroom
      have hnext : GrowsByLength.Obliging grown := by
        have hkeeps := GrowsByLength.obliging_grow hobliging bytes
        rwa [hgrow] at hkeeps
      obtain ⟨hlast, hbase', hcapacity', hlen', hfill⟩ :=
        ih hnext (hcapacity ▸ hshort) (by rwa [hgrown, hcapacity])
      rw [growAll_cons_of_ok hgrow]
      rw [hbase, hgrown, ← Nat.add_assoc] at hfill
      exact ⟨hlast, hbase'.trans hbase, hcapacity'.trans hcapacity, hcapacity ▸ hlen', rfl, hfill⟩
    · rw [growAll_cons_of_error (hrefused (Nat.lt_of_not_le hroom))]
      exact ih hobliging hshort hlen

theorem handsOut_growAll (region : ρ) (hobliging : GrowsByLength.Obliging region)
    (hmod : base region % 16 = 0) (hempty : len region = 0)
    (hshort : capacity region < UInt64.size) (requests : List Nat) :
    HandsOut region (growAll region requests).1 (growAll region requests).2 := by
  obtain ⟨hlast, hbase, hcapacity, hlen, hfill⟩ :=
    growAll_spec hobliging hshort (by rw [hempty]; exact Nat.zero_le _) requests
  rw [hempty, Nat.add_zero] at hfill
  exact {
    base_eq := hbase
    base_mod := hbase ▸ hmod
    capacity_eq := hcapacity
    len_eq := Nat.add_left_cancel hfill.stop_eq
    len_le := hcapacity ▸ hlen
    fill := hbase ▸ hfill
    apart := hfill.pairwise
    contains_iff := fun _ => contains_iff
    answers := answers hlast (hcapacity ▸ hshort) }

end Region

namespace ReservedRegion

variable {region grown : ReservedRegion} {pageSize bytes : Nat} {answer : Except RegionError Nat}

/-- The pages of what a reservation handed out are committed, and no others. -/
structure Commits (region : ReservedRegion) (pageSize : Nat) : Prop where
  pageSize_eq : region.pageSize = pageSize
  committed_eq : wholePages region.len pageSize = .ok region.committed
  len_le : region.len ≤ region.committed
  committed_le : region.committed ≤ region.reserved

theorem commits_of_roundUp? (hlen : region.len ≤ region.reserved)
    (hwhole : roundUp? region.len region.pageSize = some region.committed) :
    region.Commits region.pageSize := by
  obtain ⟨-, hmod, -⟩ := roundUp?_spec (wholePages_eq_ok.1 region.whole)
  exact ⟨rfl, wholePages_eq_ok.2 hwhole, (roundUp?_spec hwhole).2.2.1,
    roundUp?_le hwhole hmod hlen⟩

/-- A request either stays within the pages that are committed, which are then still those of what
    is handed out, or brings the pages that it needs. -/
theorem Commits.grow (h : region.Commits pageSize)
    (hgrow : Region.grow region bytes = (answer, grown)) : grown.Commits pageSize := by
  cases answer with
  | error e => rwa [KeepsOnRefusal.eq_of_grow_error hgrow]
  | ok address =>
    obtain ⟨rfl, hcommitted, -, -⟩ := h
    have hroom : region.len + bytes ≤ region.reserved := by
      obtain ⟨-, -, hlen, -, hle, -⟩ := GrowsInPlace.grow_ok hgrow
      exact hlen ▸ hle
    obtain ⟨pages, hpages, rfl⟩ := region.eq_of_grow_eq_ok hgrow
    refine commits_of_roundUp? hroom ?_
    change roundUp? (region.len + bytes) region.pageSize = some (if _ then _ else _)
    split
    · rename_i hwithin
      exact roundUp?_of_le_of_le (wholePages_eq_ok.1 hcommitted) (Nat.le_add_right _ _) hwithin
    · exact hpages

theorem Commits.growAll (h : region.Commits pageSize) (requests : List Nat) :
    (Region.growAll region requests).2.Commits pageSize := by
  induction requests generalizing region with
  | nil => exact h
  | cons bytes requests ih => exact ih (h.grow rfl)

/-- Requests change nothing of a reservation but how much of it is handed out and committed. -/
theorem exists_growAll (region : ReservedRegion) (requests : List Nat) :
    ∃ committed len, (Region.growAll region requests).2 = { region with committed, len } := by
  induction requests generalizing region with
  | nil => exact ⟨region.committed, region.len, rfl⟩
  | cons bytes requests ih =>
    cases hgrow : Region.grow region bytes with
    | mk answer grown =>
      cases answer with
      | error e =>
        obtain rfl := KeepsOnRefusal.eq_of_grow_error hgrow
        rw [Region.growAll_cons_of_error hgrow]
        exact ih grown
      | ok address =>
        obtain ⟨pages, -, rfl⟩ := region.eq_of_grow_eq_ok hgrow
        rw [Region.growAll_cons_of_ok hgrow]
        exact ih _

/-- A new reservation has nothing committed, and nothing is what it needs. -/
theorem commits_of_reserve {base bytes pageSize space : Nat} {permits : Nat → Nat → Bool}
    {region : ReservedRegion} (h : reserve base bytes pageSize space permits = .ok region) :
    region.Commits pageSize := by
  obtain ⟨-, rfl, hcommitted, hlen, -⟩ := reserve_spec h
  refine commits_of_roundUp? (by rw [hlen]; exact Nat.zero_le _) ?_
  rw [hlen, hcommitted]
  exact roundUp?_zero (wholePages_eq_ok.1 region.whole)

end ReservedRegion

/-- Whatever is asked of a region over a buffer or over a reservation whose pages the system lets it
    use, and in whatever order, it hands out one span after the other and refuses just what does not
    fit. -/
theorem handsOut_of_requests :
    (∀ address size : Nat, size < UInt64.size →
      ∀ region : BufferRegion, BufferRegion.ofBuffer address size = .ok region →
      ∀ requests spans last, Region.growAll region requests = (spans, last) →
        Region.HandsOut region spans last) ∧
    ∀ (base bytes pageSize space : Nat) (permits : Nat → Nat → Bool),
      (∀ start stop, permits start stop = true) → 16 ≤ pageSize → base % pageSize = 0 →
      ∀ region, ReservedRegion.reserve base bytes pageSize space permits = .ok region →
      ∀ requests spans last, Region.growAll region requests = (spans, last) →
        Region.HandsOut region spans last ∧ last.Commits pageSize := by
  refine ⟨fun address size hsize region hregion requests spans last hlast => ?_,
    fun base bytes pageSize space permits hpermits hpage hbase region hregion requests spans last
      hlast => ?_⟩
  · obtain ⟨hmod, hlow, hend, hempty⟩ := BufferRegion.ofBuffer_spec hregion
    have hshort : region.capacity < UInt64.size := by omega
    have hgrown := Region.handsOut_growAll region trivial hmod hempty hshort requests
    rwa [hlast] at hgrown
  · obtain ⟨rfl, rfl, -, hempty, -, rfl⟩ := ReservedRegion.reserve_spec hregion
    have hpower := (roundUp?_spec (wholePages_eq_ok.1 region.whole)).1
    have hmod : region.base % 16 = 0 := Nat.mod_eq_zero_of_dvd <|
      Nat.dvd_trans (IsPowerOfTwo.dvd (by decide) hpower hpage) (Nat.dvd_of_mod_eq_zero hbase)
    have hgrown := Region.handsOut_growAll region hpermits hmod hempty region.reserved_lt requests
    have hcommits := (ReservedRegion.commits_of_reserve hregion).growAll requests
    rw [hlast] at hgrown hcommits
    exact ⟨hgrown, hcommits⟩

/-- The region over a buffer of 100 bytes that starts behind a multiple of 16. -/
def skewedBuffer : BufferRegion := { base := 65552, capacity := 85 }

/-- A reservation of two pages. -/
def twoPages : ReservedRegion where
  base := 1048576
  reserved := 8192
  pageSize := pageBytes
  whole := wholePages_eq_ok.2 (by decide)

/-- Between what is granted, a request overflows and others are too large. -/
theorem handsOut_of_sampleRequests :
    BufferRegion.ofBuffer 65537 100 = .ok skewedBuffer ∧
      Region.growAll skewedBuffer [32, 40, UInt64.size - 1, 20, 3] =
        ([⟨65552, 32⟩, ⟨65584, 40⟩, ⟨65624, 3⟩], { skewedBuffer with len := 75 }) ∧
      Region.HandsOut skewedBuffer [⟨65552, 32⟩, ⟨65584, 40⟩, ⟨65624, 3⟩]
        { skewedBuffer with len := 75 } ∧
      ReservedRegion.reserve 1048576 5000 = .ok twoPages ∧
      Region.growAll twoPages [32, 8192, 8000, UInt64.size - 1] =
        ([⟨1048576, 32⟩, ⟨1048608, 8000⟩], { twoPages with committed := 8192, len := 8032 }) ∧
      Region.HandsOut twoPages [⟨1048576, 32⟩, ⟨1048608, 8000⟩]
        { twoPages with committed := 8192, len := 8032 } ∧
      ReservedRegion.Commits { twoPages with committed := 8192, len := 8032 } pageBytes := by
  obtain ⟨hbuffer, hreservation⟩ := handsOut_of_requests
  have hskewed : BufferRegion.ofBuffer 65537 100 = .ok skewedBuffer := by cbv
  have hspans : Region.growAll skewedBuffer [32, 40, UInt64.size - 1, 20, 3] =
      ([⟨65552, 32⟩, ⟨65584, 40⟩, ⟨65624, 3⟩], { skewedBuffer with len := 75 }) := by
    decide +kernel
  have hpages : ReservedRegion.reserve 1048576 5000 = .ok twoPages := by cbv
  have hgrown : Region.growAll twoPages [32, 8192, 8000, UInt64.size - 1] =
      ([⟨1048576, 32⟩, ⟨1048608, 8000⟩], { twoPages with committed := 8192, len := 8032 }) := by
    obtain ⟨committed, len, hlast⟩ :=
      ReservedRegion.exists_growAll twoPages [32, 8192, 8000, UInt64.size - 1]
    have hvalues : (Region.growAll twoPages [32, 8192, 8000, UInt64.size - 1]).1 =
          [⟨1048576, 32⟩, ⟨1048608, 8000⟩] ∧
        (Region.growAll twoPages [32, 8192, 8000, UInt64.size - 1]).2.committed = 8192 ∧
        (Region.growAll twoPages [32, 8192, 8000, UInt64.size - 1]).2.len = 8032 := by
      decide +kernel
    obtain ⟨hspans, hcommitted, hlen⟩ := hvalues
    rw [hlast] at hcommitted hlen
    cases hcommitted
    cases hlen
    exact Prod.ext hspans hlast
  exact ⟨hskewed, hspans, hbuffer _ _ (by decide) _ hskewed _ _ _ hspans, hpages, hgrown,
    hreservation _ _ _ _ _ (fun _ _ => rfl) (by decide) (by decide) _ hpages _ _ _ hgrown⟩

end BoundaryTag
