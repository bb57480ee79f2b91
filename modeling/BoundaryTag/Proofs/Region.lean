import BoundaryTag.Region.Buffer
import BoundaryTag.Region.Reserved
import BoundaryTag.Region.Unreliable

namespace BoundaryTag

/-- A region that grows in place, up to a fixed capacity. A granted span starts where the region
    ended, and nothing moves. -/
class GrowsInPlace (ρ : Type) [Region ρ] where
  capacity : ρ → Nat
  grow_ok : ∀ {region after : ρ} {bytes address : Nat},
    Region.grow region bytes = (.ok address, after) →
      address = Region.base region + Region.len region ∧
      Region.base after = Region.base region ∧
      Region.len after = Region.len region + bytes ∧
      Region.len after < UInt64.size ∧ Region.len after ≤ capacity region ∧
      capacity after = capacity region
  grow_error : ∀ {region after : ρ} {bytes : Nat} {e : RegionError},
    Region.grow region bytes = (.error e, after) →
      Region.base after = Region.base region ∧ Region.len after = Region.len region ∧
      capacity after = capacity region

/-- A region that grants whatever fits, as long as it is obliging. What it answers then depends on
    nothing but where it lies, how long it is and how long it may become. -/
class GrowsByLength (ρ : Type) [Region ρ] extends GrowsInPlace ρ where
  Obliging : ρ → Prop
  obliging_grow : ∀ {region : ρ}, Obliging region →
    ∀ bytes, Obliging (Region.grow region bytes).2
  grow_eq : ∀ {region : ρ}, Obliging region → ∀ bytes : Nat, (Region.grow region bytes).1 =
    if UInt64.size ≤ Region.len region + bytes then .error .overflow
    else if capacity region < Region.len region + bytes then .error .exhausted
    else .ok (Region.base region + Region.len region)

/-- A region that a refusal leaves as it was. -/
class KeepsOnRefusal (ρ : Type) [Region ρ] : Prop where
  eq_of_grow_error : ∀ {region after : ρ} {bytes : Nat} {e : RegionError},
    Region.grow region bytes = (.error e, after) → after = region

namespace Region

variable {ρ : Type} {region grown after : ρ} {capacity stop start address : Nat} {e : RegionError}

/-- The answer to a request to grow up to offset `stop`, where nothing but the capacity counts. -/
def within (capacity stop start : Nat) (region grown : ρ) : Except RegionError Nat × ρ :=
  if UInt64.size ≤ stop then (.error .overflow, region)
  else if capacity < stop then (.error .exhausted, region)
  else (.ok start, grown)

theorem within_eq_ok (h : within capacity stop start region grown = (.ok address, after)) :
    stop < UInt64.size ∧ stop ≤ capacity ∧ start = address ∧ grown = after := by
  rw [within] at h
  split at h
  · cases h
  · split at h
    · cases h
    · cases h
      exact ⟨Nat.lt_of_not_le ‹_›, Nat.le_of_not_lt ‹_›, rfl, rfl⟩

theorem within_eq_error (h : within capacity stop start region grown = (.error e, after)) :
    after = region := by
  rw [within] at h
  split at h
  · exact (congrArg Prod.snd h).symm
  · split at h
    · exact (congrArg Prod.snd h).symm
    · cases h

theorem within_fst : (within capacity stop start region grown).1 =
    if UInt64.size ≤ stop then .error .overflow
    else if capacity < stop then .error .exhausted
    else .ok start := by
  rw [within]
  split
  · rfl
  · split <;> rfl

end Region

theorem BufferRegion.grow_eq (region : BufferRegion) (bytes : Nat) :
    region.grow bytes = Region.within region.capacity (region.len + bytes)
      (region.base + region.len) region { region with len := region.len + bytes } := rfl

instance : KeepsOnRefusal BufferRegion where
  eq_of_grow_error {region _ bytes _} h :=
    Region.within_eq_error ((region.grow_eq bytes).symm.trans h)

instance : GrowsInPlace BufferRegion where
  capacity := BufferRegion.capacity
  grow_ok {region after bytes address} h := by
    obtain ⟨hshort, hroom, rfl, rfl⟩ := Region.within_eq_ok ((region.grow_eq bytes).symm.trans h)
    exact ⟨rfl, rfl, rfl, hshort, hroom, rfl⟩
  grow_error h := by
    obtain rfl := KeepsOnRefusal.eq_of_grow_error h
    exact ⟨rfl, rfl, rfl⟩

instance : GrowsByLength BufferRegion where
  Obliging _ := True
  obliging_grow _ _ := trivial
  grow_eq {region} _ bytes := (congrArg Prod.fst (region.grow_eq bytes)).trans Region.within_fst

namespace ReservedRegion

variable (region : ReservedRegion) {stop bytes : Nat}

theorem reserved_lt : region.reserved < UInt64.size :=
  (roundUp?_spec (wholePages_eq_ok.1 region.whole)).2.2.2.2

/-- The pages of a reservation can be committed up to its end, which cuts off none of them. Only the
    system may refuse to, where there are pages that are not committed yet. -/
theorem commit_eq (hstop : stop ≤ region.reserved) :
    ∃ pages, roundUp? stop region.pageSize = some pages ∧ region.commit stop =
      if stop ≤ region.committed then .ok region
      else if region.permits region.committed pages then .ok { region with committed := pages }
      else .error .exhausted := by
  have hwhole := wholePages_eq_ok.1 region.whole
  obtain ⟨hpower, hmod, -⟩ := roundUp?_spec hwhole
  have hpos := hpower.pos
  have hroom := roundUp?_add_le hwhole
  have hfit : stop + (region.pageSize - 1) < UInt64.size := by omega
  obtain ⟨pages, hpages⟩ := roundUp?_eq_some hpower hfit
  have hend : pages ≤ region.reserved := roundUp?_le hpages hmod hstop
  refine ⟨pages, hpages, ?_⟩
  rw [commit, wholePages_eq_ok.2 hpages]
  change (if _ then _ else if region.permits region.committed (min pages region.reserved) then
    Except.ok { region with committed := min pages region.reserved } else _) = _
  rw [Nat.min_eq_left hend]
  rfl

/-- A request that the system stands in the way of leaves the reservation as it was. All others are
    answered by their size. -/
theorem grow_eq (bytes : Nat) :
    (∃ start stop, region.permits start stop = false) ∧
      region.grow bytes = (.error .exhausted, region) ∨
    ∃ committed, region.grow bytes = Region.within region.reserved (region.len + bytes)
      (region.base + region.len) region
      { region with committed, len := region.len + bytes } := by
  by_cases hroom : region.len + bytes ≤ region.reserved
  · have hshort : ¬ UInt64.size ≤ region.len + bytes :=
      Nat.not_le_of_lt (Nat.lt_of_le_of_lt hroom region.reserved_lt)
    obtain ⟨pages, -, hcommit⟩ := region.commit_eq hroom
    simp only [grow, hcommit, Region.within, if_neg hshort, if_neg (Nat.not_lt_of_le hroom)]
    by_cases hwithin : region.len + bytes ≤ region.committed
    · exact .inr ⟨region.committed, by rw [if_pos hwithin]⟩
    · rw [if_neg hwithin]
      cases hpermits : region.permits region.committed pages with
      | true => exact .inr ⟨pages, rfl⟩
      | false => exact .inl ⟨⟨_, _, hpermits⟩, rfl⟩
  · refine .inr ⟨0, ?_⟩
    simp only [grow, Region.within, if_pos (Nat.lt_of_not_le hroom)]

/-- What is granted lies in pages that were committed before, or comes with the pages it needs. -/
theorem eq_of_grow_eq_ok {address : Nat} {grown : ReservedRegion}
    (hgrow : region.grow bytes = (.ok address, grown)) :
    ∃ pages, roundUp? (region.len + bytes) region.pageSize = some pages ∧ grown = { region with
      committed := if region.len + bytes ≤ region.committed then region.committed else pages
      len := region.len + bytes } := by
  rw [grow] at hgrow
  split at hgrow
  · cases hgrow
  · split at hgrow
    · cases hgrow
    · rename_i hroom
      obtain ⟨pages, hpages, hcommit⟩ := region.commit_eq (Nat.le_of_not_lt hroom)
      refine ⟨pages, hpages, ?_⟩
      rw [hcommit] at hgrow
      by_cases hwithin : region.len + bytes ≤ region.committed
      · rw [if_pos hwithin] at hgrow ⊢
        exact (congrArg Prod.snd hgrow).symm
      · rw [if_neg hwithin] at hgrow ⊢
        split at hgrow
        · cases hgrow
        · rename_i committed hgranted
          split at hgranted
          · cases hgranted
            exact (congrArg Prod.snd hgrow).symm
          · cases hgranted

end ReservedRegion

instance : KeepsOnRefusal ReservedRegion where
  eq_of_grow_error {region after bytes e} h := by
    obtain ⟨-, hgrow⟩ | ⟨committed, hgrow⟩ := region.grow_eq bytes
    · exact (congrArg Prod.snd (hgrow.symm.trans h)).symm
    · exact Region.within_eq_error (hgrow.symm.trans h)

instance : GrowsInPlace ReservedRegion where
  capacity := ReservedRegion.reserved
  grow_ok {region after bytes address} h := by
    obtain ⟨-, hgrow⟩ | ⟨committed, hgrow⟩ := region.grow_eq bytes
    · cases hgrow.symm.trans h
    · obtain ⟨hshort, hroom, rfl, rfl⟩ := Region.within_eq_ok (hgrow.symm.trans h)
      exact ⟨rfl, rfl, rfl, hshort, hroom, rfl⟩
  grow_error h := by
    obtain rfl := KeepsOnRefusal.eq_of_grow_error h
    exact ⟨rfl, rfl, rfl⟩

instance : GrowsByLength ReservedRegion where
  Obliging region := ∀ start stop, region.permits start stop = true
  obliging_grow {region} h bytes := by
    cases hgrow : Region.grow region bytes with
    | mk answer grown =>
      cases answer with
      | error e =>
        obtain rfl := KeepsOnRefusal.eq_of_grow_error hgrow
        exact h
      | ok address =>
        obtain ⟨pages, -, rfl⟩ := region.eq_of_grow_eq_ok hgrow
        exact h
  grow_eq {region} h bytes := by
    obtain ⟨⟨start, stop, hrefuses⟩, -⟩ | ⟨committed, hgrow⟩ := region.grow_eq bytes
    · rw [h start stop] at hrefuses
      cases hrefuses
    · exact (congrArg Prod.fst hgrow).trans Region.within_fst

instance {ρ : Type} [Region ρ] [GrowsInPlace ρ] : GrowsInPlace (UnreliableRegion ρ) where
  capacity region := GrowsInPlace.capacity region.inner
  grow_ok {region after bytes address} h := by
    simp only [Region.grow, UnreliableRegion.grow] at h
    split at h
    · cases h
    · cases hinner : Region.grow region.inner bytes with
      | mk answer inner =>
        rw [hinner] at h
        obtain ⟨rfl, rfl⟩ : answer = .ok address ∧ _ = after := by simpa using h
        exact GrowsInPlace.grow_ok hinner
  grow_error {region after bytes e} h := by
    simp only [Region.grow, UnreliableRegion.grow] at h
    split at h
    · obtain ⟨-, rfl⟩ : _ = e ∧ _ = after := by simpa using h
      exact ⟨rfl, rfl, rfl⟩
    · cases hinner : Region.grow region.inner bytes with
      | mk answer inner =>
        rw [hinner] at h
        obtain ⟨rfl, rfl⟩ : answer = .error e ∧ _ = after := by simpa using h
        exact GrowsInPlace.grow_error hinner

/-- However far a region grows, it stays within the address space. -/
def Region.Addressable {ρ : Type} [Region ρ] [GrowsInPlace ρ] (region : ρ) : Prop :=
  Region.base region + GrowsInPlace.capacity region ≤ UInt64.size

instance {ρ : Type} [Region ρ] [GrowsInPlace ρ] (region : ρ) :
    Decidable (Region.Addressable region) :=
  inferInstanceAs (Decidable (_ ≤ _))

/-- What a region may become by requests to grow, granted or not. -/
inductive Region.GrowsTo {ρ : Type} [Region ρ] (region : ρ) : ρ → Prop
  | refl : GrowsTo region region
  | grow {grown : ρ} (bytes : Nat) :
    GrowsTo region grown → GrowsTo region (Region.grow grown bytes).2

section GrowsTo

variable {ρ : Type} [Region ρ] {region grown after : ρ} {bytes stop : Nat}

theorem Region.GrowsTo.of_grow {answer : Except RegionError Nat} (h : GrowsTo region grown)
    (hgrow : Region.grow grown bytes = (answer, after)) : GrowsTo region after := by
  obtain rfl : _ = after := congrArg Prod.snd hgrow
  exact .grow bytes h

theorem Region.GrowsTo.capacity_eq [GrowsInPlace ρ] (h : GrowsTo region grown) :
    GrowsInPlace.capacity grown = GrowsInPlace.capacity region := by
  induction h with
  | refl => rfl
  | @grow grown bytes _ ih =>
    cases hgrow : Region.grow grown bytes with
    | mk answer after =>
      cases answer with
      | error e => exact (GrowsInPlace.grow_error hgrow).2.2.trans ih
      | ok address => exact (GrowsInPlace.grow_ok hgrow).2.2.2.2.2.trans ih

theorem Region.GrowsTo.obliging [GrowsByLength ρ] (h : GrowsTo region grown)
    (hobliging : GrowsByLength.Obliging region) : GrowsByLength.Obliging grown := by
  induction h with
  | refl => exact hobliging
  | grow bytes _ ih => exact GrowsByLength.obliging_grow ih bytes

/-- The region, now or when it has grown, refuses to grow to some length that is not above
    `stop`. -/
def Region.RefusesWithin (region : ρ) (stop : Nat) : Prop :=
  ∃ grown : ρ, GrowsTo region grown ∧
    ∃ bytes, Region.len grown + bytes ≤ stop ∧ ∃ error, (Region.grow grown bytes).1 = .error error

/-- A region that grants whatever fits does not refuse what lies within its capacity. -/
theorem GrowsByLength.not_refusesWithin [GrowsByLength ρ]
    (hobliging : GrowsByLength.Obliging region) (hroom : stop ≤ GrowsInPlace.capacity region)
    (hshort : stop < UInt64.size) : ¬ Region.RefusesWithin region stop := by
  rintro ⟨grown, hgrown, bytes, hstop, error, hgrow⟩
  have hcapacity := hgrown.capacity_eq
  rw [GrowsByLength.grow_eq (hgrown.obliging hobliging), if_neg (by omega),
    if_neg (by omega)] at hgrow
  cases hgrow

end GrowsTo

namespace ReservedRegion

variable {base bytes pageSize space : Nat} {permits : Nat → Nat → Bool} {region : ReservedRegion}

/-- What is reserved is the whole pages that hold the bytes asked for, if there are any and if there
    is space for them. -/
theorem reserve_eq_ok : reserve base bytes pageSize space permits = .ok region ↔
    ∃ (reserved : Nat) (hpages : wholePages bytes pageSize = .ok reserved),
      reserved ≠ 0 ∧ reserved < space ∧ region = {
        base, reserved, pageSize, permits
        whole := wholePages_eq_ok.2 (roundUp?_of_roundUp? (wholePages_eq_ok.1 hpages)) } := by
  rw [reserve]
  split
  · rename_i error hpages
    simp [hpages]
  · rename_i reserved hpages
    simp only [hpages, Except.ok.injEq, exists_prop_eq']
    by_cases hzero : reserved = 0
    · simp [hzero]
    · by_cases hspace : space ≤ reserved
      · simp [hzero, hspace, Nat.not_lt_of_le hspace]
      · simp [hzero, hspace, Nat.lt_of_not_le hspace, eq_comm]

/-- A reservation starts with no bytes and no pages committed. -/
theorem reserve_spec (h : reserve base bytes pageSize space permits = .ok region) :
    region.base = base ∧ region.pageSize = pageSize ∧ region.committed = 0 ∧ region.len = 0 ∧
      bytes ≤ region.reserved ∧ region.permits = permits := by
  obtain ⟨reserved, hpages, -, -, rfl⟩ := reserve_eq_ok.1 h
  exact ⟨rfl, rfl, rfl, rfl, (roundUp?_spec (wholePages_eq_ok.1 hpages)).2.2.1, rfl⟩

/-- What the system will permit later has no part in a reservation. -/
theorem reserve_permits (h : reserve base bytes pageSize space permits = .ok region)
    (others : Nat → Nat → Bool) :
    reserve base bytes pageSize space others = .ok { region with permits := others } := by
  obtain ⟨reserved, hpages, hzero, hspace, rfl⟩ := reserve_eq_ok.1 h
  exact reserve_eq_ok.2 ⟨reserved, hpages, hzero, hspace, rfl⟩

end ReservedRegion

/-- A region over a buffer starts at the first multiple of 16 in it, and has nothing yet. -/
theorem BufferRegion.ofBuffer_spec {address size : Nat} {region : BufferRegion}
    (h : ofBuffer address size = .ok region) :
    region.base % 16 = 0 ∧ address ≤ region.base ∧
      region.base + region.capacity = address + size ∧ region.len = 0 := by
  rw [ofBuffer] at h
  split at h
  · cases h
  · rename_i gap hgap
    split at h
    · rename_i hle
      cases h
      refine ⟨(gapTo?_spec hgap).1, Nat.le_add_right _ _, ?_, rfl⟩
      change address + gap + (size - gap) = address + size
      omega
    · cases h

/-- A region over a buffer lies where the buffer does. -/
theorem BufferRegion.addressable_of_ofBuffer {address size : Nat} {region : BufferRegion}
    (h : ofBuffer address size = .ok region) (hsize : address + size ≤ UInt64.size) :
    Region.Addressable region := by
  obtain ⟨-, -, hend, -⟩ := ofBuffer_spec h
  exact Nat.le_trans (Nat.le_of_eq hend) hsize

end BoundaryTag
