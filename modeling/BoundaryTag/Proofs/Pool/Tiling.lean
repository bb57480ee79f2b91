import BoundaryTag.Pool.Blocks
import Mathlib.Data.List.Nodup
import Mathlib.Data.List.Pairwise

namespace BoundaryTag

namespace BlockInfo

/-- Where the payload of the next block starts. -/
def stop (info : BlockInfo) : Nat := info.block.offset + info.size

/-- What the header and the footer of a block hold. -/
def tag (info : BlockInfo) : Tag := .ofSize info.size info.allocated

/-- The words of a block, from its header, eight bytes before its payload, to the end of its footer,
    eight bytes before the next payload. -/
def Covers (info : BlockInfo) (offset : Nat) : Prop :=
  info.block.offset ≤ offset + 8 ∧ offset + 8 < info.stop

/-- Where the tags of a block lie. -/
def HasTagAt (info : BlockInfo) (offset : Nat) : Prop :=
  offset + 8 = info.block.offset ∨ offset + 16 = info.stop

/-- The bytes of a block that a caller may use. -/
def HoldsAt (info : BlockInfo) (offset : Nat) : Prop :=
  info.block.offset ≤ offset ∧ offset + 16 < info.stop

end BlockInfo

/-- The blocks lie end to end, the first payload at `start` and the payload after the last at
    `stop`. Sizes are multiples of 16, and no block is smaller than the smallest. -/
def Tiles : (start : Nat) → List BlockInfo → (stop : Nat) → Prop
  | start, [], stop => start = stop
  | start, info :: rest, stop =>
    info.block.offset = start ∧ info.size % alignment = 0 ∧ smallestBlock ≤ info.size ∧
      Tiles info.stop rest stop

variable {start stop : Nat} {front old new rest infos : List BlockInfo} {info other : BlockInfo}

theorem tiles_append :
    Tiles start (front ++ rest) stop ↔ ∃ seam, Tiles start front seam ∧ Tiles seam rest stop := by
  induction front generalizing start with
  | nil => simp [Tiles]
  | cons info front ih =>
    simp only [List.cons_append, Tiles, ih]
    constructor
    · rintro ⟨hstart, hmod, hsize, seam, hfront, hrest⟩
      exact ⟨seam, ⟨hstart, hmod, hsize, hfront⟩, hrest⟩
    · rintro ⟨seam, ⟨hstart, hmod, hsize, hfront⟩, hrest⟩
      exact ⟨hstart, hmod, hsize, seam, hfront, hrest⟩

theorem Tiles.le (h : Tiles start infos stop) : start ≤ stop := by
  induction infos generalizing start with
  | nil => exact Nat.le_of_eq h
  | cons info rest ih =>
    obtain ⟨hstart, -, -, hrest⟩ := h
    have := ih hrest
    unfold BlockInfo.stop at this
    omega

theorem Tiles.mod (h : Tiles start infos stop) (hstart : start % 16 = 0) : stop % 16 = 0 := by
  induction infos generalizing start with
  | nil => exact h ▸ hstart
  | cons info rest ih =>
    obtain ⟨hinfo, hmod, -, hrest⟩ := h
    apply ih hrest
    simp only [BlockInfo.stop, alignment] at hmod ⊢
    omega

/-- A tile in its place. -/
theorem tiles_middle : Tiles start (front ++ info :: rest) stop ↔
    Tiles start front info.block.offset ∧ info.size % 16 = 0 ∧ 32 ≤ info.size ∧
      Tiles info.stop rest stop := by
  rw [tiles_append]
  constructor
  · rintro ⟨seam, hfront, hinfo, hmod, hsize, hrest⟩
    exact ⟨hinfo ▸ hfront, hmod, hsize, hrest⟩
  · rintro ⟨hfront, hmod, hsize, hrest⟩
    exact ⟨_, hfront, rfl, hmod, hsize, hrest⟩

theorem Tiles.size_ge (h : Tiles start infos stop) (hinfo : info ∈ infos) : 32 ≤ info.size := by
  obtain ⟨front, rest, rfl⟩ := List.append_of_mem hinfo
  exact (tiles_middle.1 h).2.2.1

/-- What holds of every tile between two aligned ends. -/
structure BlockInfo.LiesIn (info : BlockInfo) (start stop : Nat) : Prop where
  start_le : start ≤ info.block.offset
  stop_le : info.stop ≤ stop
  aligned : info.block.offset % 16 = 0
  size_mod : info.size % 16 = 0
  size_ge : 32 ≤ info.size

theorem Tiles.liesIn (h : Tiles start infos stop) (hstart : start % 16 = 0)
    (hinfo : info ∈ infos) : info.LiesIn start stop := by
  obtain ⟨front, rest, rfl⟩ := List.append_of_mem hinfo
  obtain ⟨hfront, hmod, hsize, hrest⟩ := tiles_middle.1 h
  exact ⟨hfront.le, hrest.le, hfront.mod hstart, hmod, hsize⟩

/-- Tiles lie in the order in which they are listed. -/
theorem Tiles.pairwise (h : Tiles start infos stop) :
    infos.Pairwise fun x y => x.stop ≤ y.block.offset := by
  induction infos generalizing start with
  | nil => exact .nil
  | cons info rest ih =>
    obtain ⟨-, -, -, hrest⟩ := h
    refine List.pairwise_cons.2 ⟨fun y hy => ?_, ih hrest⟩
    obtain ⟨before, after, rfl⟩ := List.append_of_mem hy
    exact (tiles_middle.1 hrest).1.le

/-- Tiles leave no gap. -/
theorem Tiles.exists_at (h : Tiles start infos stop) {offset : Nat} (hlow : start ≤ offset)
    (hhigh : offset < stop) : ∃ info ∈ infos, info.block.offset ≤ offset ∧ offset < info.stop := by
  induction infos generalizing start with
  | nil =>
    have hend : start = stop := h
    omega
  | cons info rest ih =>
    obtain ⟨hstart, -, -, hrest⟩ := h
    by_cases hinside : offset < info.stop
    · exact ⟨info, List.mem_cons_self, hstart ▸ hlow, hinside⟩
    · obtain ⟨other, hother, hplace⟩ := ih hrest (Nat.le_of_not_lt hinside)
      exact ⟨other, List.mem_cons_of_mem _ hother, hplace⟩

/-- Two different tiles do not overlap. -/
theorem Tiles.apart (h : Tiles start infos stop) (hinfo : info ∈ infos) (hother : other ∈ infos)
    (hne : info ≠ other) : info.stop ≤ other.block.offset ∨ other.stop ≤ info.block.offset := by
  have hboth : infos.Pairwise fun x y =>
      x.stop ≤ y.block.offset ∨ y.stop ≤ x.block.offset := h.pairwise.imp Or.inl
  have : Std.Symm fun x y : BlockInfo =>
      x.stop ≤ y.block.offset ∨ y.stop ≤ x.block.offset := ⟨fun _ _ => Or.symm⟩
  exact hboth.forall hinfo hother hne

theorem Tiles.eq_of_covers (h : Tiles start infos stop) (hinfo : info ∈ infos)
    (hother : other ∈ infos) {offset : Nat} (hcovers : info.Covers offset)
    (hcovered : other.Covers offset) : info = other := by
  by_contra hne
  have hapart := h.apart hinfo hother hne
  obtain ⟨hlow, hhigh⟩ := hcovers
  obtain ⟨hlow', hhigh'⟩ := hcovered
  omega

theorem Tiles.eq_of_block_eq (h : Tiles start infos stop) (hstart : start % 16 = 0)
    (hinfo : info ∈ infos) (hother : other ∈ infos) (heq : info.block = other.block) :
    info = other := by
  have hsize := (h.liesIn hstart hinfo).size_ge
  have hsize' := (h.liesIn hstart hother).size_ge
  have hcovers : info.Covers info.block.offset := by
    simp only [BlockInfo.Covers, BlockInfo.stop]
    omega
  have hcovered : other.Covers info.block.offset := by
    simp only [BlockInfo.Covers, BlockInfo.stop, heq]
    omega
  exact h.eq_of_covers hinfo hother hcovers hcovered

theorem Tiles.nodup (h : Tiles start infos stop) : infos.Nodup := by
  induction infos generalizing start with
  | nil => exact .nil
  | cons info rest ih =>
    have hpair := List.pairwise_cons.1 h.pairwise
    obtain ⟨-, -, hsize, hrest⟩ := h
    refine List.nodup_cons.2 ⟨fun hmem => ?_, ih hrest⟩
    have hself := hpair.1 info hmem
    simp only [BlockInfo.stop, smallestBlock] at hself hsize
    omega

/-- Some of the tiles are different blocks. -/
theorem Tiles.nodup_map_block (h : Tiles start infos stop) (hstart : start % 16 = 0)
    {part : List BlockInfo} (hsub : part.Sublist infos) : (part.map BlockInfo.block).Nodup := by
  refine (h.nodup.sublist hsub).map_on fun x hx y hy heq => ?_
  exact h.eq_of_block_eq hstart (hsub.subset hx) (hsub.subset hy) heq

theorem Tiles.block_ne (h : Tiles start (front ++ info :: rest) stop) (hstart : start % 16 = 0)
    (hother : other ∈ front ∨ other ∈ rest) : other.block ≠ info.block := by
  intro heq
  have hmem : other ∈ front ++ info :: rest := by
    rcases hother with hother | hother <;> simp [hother]
  obtain rfl := h.eq_of_block_eq hstart hmem (by simp) heq
  have hnodup := List.nodup_middle.1 h.nodup
  exact (List.nodup_cons.1 hnodup).1 (by simpa using hother)

/-- What one tile covers is not covered by those around it. -/
theorem Tiles.not_covers (h : Tiles start (front ++ info :: rest) stop) (hstart : start % 16 = 0)
    (hother : other ∈ front ∨ other ∈ rest) {offset : Nat} (hcovers : other.Covers offset) :
    ¬ info.Covers offset := by
  intro hcovered
  have hmem : other ∈ front ++ info :: rest := by
    rcases hother with hother | hother <;> simp [hother]
  have heq := h.eq_of_covers hmem (by simp) hcovers hcovered
  exact h.block_ne hstart hother (by rw [heq])

theorem Tiles.stop_unique {stop' : Nat} (h : Tiles start infos stop)
    (h' : Tiles start infos stop') : stop = stop' := by
  induction infos generalizing start with
  | nil => exact h.symm.trans h'
  | cons info rest ih => exact ih h.2.2.2 h'.2.2.2

theorem Tiles.start_unique {start' : Nat} (h : Tiles start infos stop)
    (h' : Tiles start' infos stop) : start = start' := by
  cases infos with
  | nil => exact h.trans h'.symm
  | cons info rest => exact h.1.symm.trans h'.1

/-- What stands in the place of one tile fills its span. -/
theorem Tiles.fills (h : Tiles start (front ++ info :: rest) stop)
    (hnew : Tiles start (front ++ (new ++ rest)) stop) : Tiles info.block.offset new info.stop := by
  obtain ⟨hfront, -, -, hrest⟩ := tiles_middle.1 h
  simp only [tiles_append] at hnew
  obtain ⟨left, hfront', right, hmiddle, hrest'⟩ := hnew
  rwa [hfront.stop_unique hfront', hrest.start_unique hrest']

/-- Tiles may be exchanged for others that fill the same span. -/
theorem Tiles.replace (h : Tiles start (front ++ (old ++ rest)) stop)
    (hnew : ∀ left right, Tiles left old right → Tiles left new right) :
    Tiles start (front ++ (new ++ rest)) stop := by
  simp only [tiles_append] at h ⊢
  obtain ⟨left, hfront, right, hold, hrest⟩ := h
  exact ⟨left, hfront, right, hnew left right hold, hrest⟩

end BoundaryTag
