import BoundaryTag.Proofs.Pool.View

namespace BoundaryTag

/-- The blocks in use. -/
def held (blocks : List BlockInfo) : List BlockInfo := blocks.filter (·.allocated)

/-- The blocks that are free. -/
def vacant (blocks : List BlockInfo) : List BlockInfo := blocks.filter (!·.allocated)

/-- No two neighbours are both free. -/
def Settled (blocks : List BlockInfo) : Prop :=
  blocks.IsChain fun x y => x.allocated = true ∨ y.allocated = true

/-- What holds between operations: every free block is listed in the class of its size, and no two
    free blocks are neighbours. -/
structure Tidy (blocks : List BlockInfo) (chains : Chains) : Prop where
  listed : ∀ info ∈ blocks, info.allocated = false →
    info.block ∈ chains (SizeClass.ofSize info.size)
  settled : Settled blocks

/-- A pool between operations. -/
structure Pool.Orderly (pool : Pool) (blocks : List BlockInfo) (chains : Chains) : Prop where
  represents : pool.Represents blocks chains
  tidy : Tidy blocks chains

variable {front rest blocks : List BlockInfo} {info : BlockInfo} {chains : Chains}

theorem mem_held : info ∈ held blocks ↔ info ∈ blocks ∧ info.allocated = true := by
  simp [held]

@[simp] theorem held_nil : held [] = [] := rfl

@[simp] theorem held_append (front rest : List BlockInfo) :
    held (front ++ rest) = held front ++ held rest :=
  List.filter_append ..

/-- A block in use around another one. -/
theorem mem_held_sides : info ∈ held front ++ held rest ↔
    (info ∈ front ∨ info ∈ rest) ∧ info.allocated = true := by
  rw [← held_append, mem_held, List.mem_append]

theorem held_cons_of_allocated (hallocated : info.allocated = true) (rest : List BlockInfo) :
    held (info :: rest) = info :: held rest :=
  List.filter_cons_of_pos hallocated

theorem held_cons_of_free (hfree : info.allocated = false) (rest : List BlockInfo) :
    held (info :: rest) = held rest :=
  List.filter_cons_of_neg (by simp [hfree])

theorem held_toList {part : Option BlockInfo} (hfree : ∀ x ∈ part, x.allocated = false) :
    held part.toList = [] := by
  cases part with
  | none => rfl
  | some part => exact held_cons_of_free (hfree part rfl) []

theorem mem_vacant : info ∈ vacant blocks ↔ info ∈ blocks ∧ info.allocated = false := by
  simp [vacant]

@[simp] theorem vacant_nil : vacant [] = [] := rfl

theorem vacant_cons_of_allocated (hallocated : info.allocated = true) (rest : List BlockInfo) :
    vacant (info :: rest) = vacant rest :=
  List.filter_cons_of_neg (by simp [hallocated])

theorem vacant_cons_of_free (hfree : info.allocated = false) (rest : List BlockInfo) :
    vacant (info :: rest) = info :: vacant rest :=
  List.filter_cons_of_pos (by simp [hfree])

theorem held_middle (hallocated : info.allocated = true) (front rest : List BlockInfo) :
    (held (front ++ info :: rest)).Perm (info :: (held front ++ held rest)) := by
  rw [held_append, held_cons_of_allocated hallocated]
  exact List.perm_middle

/-- A block in use, in its place among the others. -/
theorem exists_of_held_perm {kept : List BlockInfo} (h : (held blocks).Perm (info :: kept)) :
    ∃ front rest, blocks = front ++ info :: rest ∧ info.allocated = true ∧
      (held front ++ held rest).Perm kept := by
  obtain ⟨hmem, hallocated⟩ := mem_held.1 (h.mem_iff.2 List.mem_cons_self)
  obtain ⟨front, rest, rfl⟩ := List.append_of_mem hmem
  exact ⟨front, rest, rfl, hallocated,
    ((held_middle hallocated front rest).symm.trans h).cons_inv⟩

theorem settled_middle : Settled (front ++ info :: rest) ↔
    Settled front ∧ Settled rest ∧
      (∀ x ∈ front.getLast?, x.allocated = true ∨ info.allocated = true) ∧
      ∀ y ∈ rest.head?, info.allocated = true ∨ y.allocated = true := by
  simp only [Settled, List.isChain_append, List.isChain_cons, List.head?_cons, Option.mem_some_iff,
    forall_eq']
  tauto

/-- Between free blocks lie blocks in use. So there is at most one more of them than of those, and
    not even one more if the first block is in use. -/
theorem Settled.length_vacant_le (h : Settled blocks) :
    (vacant blocks).length ≤ (held blocks).length + 1 ∧
      ((∀ info ∈ blocks.head?, info.allocated = true) →
        (vacant blocks).length ≤ (held blocks).length) := by
  induction blocks with
  | nil => simp
  | cons info rest ih =>
    obtain ⟨hnext, hrest⟩ := List.isChain_cons.1 h
    obtain ⟨hrestLe, hrestHead⟩ := ih hrest
    cases hstate : info.allocated with
    | true =>
      rw [vacant_cons_of_allocated hstate, held_cons_of_allocated hstate, List.length_cons]
      exact ⟨hrestLe.trans (Nat.le_succ _), fun _ => hrestLe⟩
    | false =>
      have hafter := hrestHead fun y hy => (hnext y hy).resolve_left (by simp [hstate])
      rw [vacant_cons_of_free hstate, held_cons_of_free hstate, List.length_cons]
      refine ⟨Nat.succ_le_succ hafter, fun hhead => ?_⟩
      rw [hhead info rfl] at hstate
      cases hstate

/-- A span that no block in use overlaps lies in one free block, for two would be neighbours. -/
theorem Settled.exists_around {stop : Nat} (h : Settled blocks)
    (htiles : Tiles frontBytes blocks stop) (hlies : info.LiesIn frontBytes stop)
    (hapart : ∀ x ∈ held blocks, ∀ offset, info.Covers offset → ¬ x.Covers offset) :
    ∃ around ∈ blocks, around.allocated = false ∧ around.block.offset ≤ info.block.offset ∧
      info.stop ≤ around.stop := by
  obtain ⟨hlow, hhigh, -, -, hsize⟩ := hlies
  have hspan : info.stop = info.block.offset + info.size := rfl
  simp only [frontBytes] at hlow
  have hfree : ∀ x ∈ blocks, ∀ offset, info.Covers offset → x.Covers offset →
      x.allocated = false := by
    intro x hx offset hcovers hcovered
    by_contra hheld
    exact hapart x (mem_held.2 ⟨hx, by simpa using hheld⟩) offset hcovers hcovered
  have hinner : info.block.offset < stop := by omega
  obtain ⟨around, hmem, hstart, hinside⟩ := htiles.exists_at hlow hinner
  have haround : around.allocated = false := by
    apply hfree around hmem (info.block.offset - 8)
    · simp only [BlockInfo.Covers]
      omega
    · simp only [BlockInfo.Covers]
      omega
  refine ⟨around, hmem, haround, hstart, Nat.le_of_not_lt fun hshort => ?_⟩
  obtain ⟨front, rest, rfl⟩ := List.append_of_mem hmem
  cases rest with
  | nil =>
    have hend : around.stop = stop := (tiles_middle.1 htiles).2.2.2
    omega
  | cons next rest =>
    -- The block behind a free one is in use, and it starts inside the span.
    obtain ⟨hnext, -, hnextSize, -⟩ := (tiles_middle.1 htiles).2.2.2
    have hseam := (settled_middle.1 h).2.2.2 next rfl
    have hnextFree : next.allocated = false := by
      apply hfree next (by simp) (next.block.offset - 8)
      · simp only [BlockInfo.Covers]
        omega
      · simp only [BlockInfo.Covers, BlockInfo.stop, smallestBlock] at hnextSize ⊢
        omega
    rw [haround, hnextFree] at hseam
    simp at hseam

/-- The words a caller may use in a block are as they were. -/
def Memory.Keeps (m after : Memory) (info : BlockInfo) : Prop :=
  ∀ offset, offset % 8 = 0 → info.HoldsAt offset → after.load offset = m.load offset

theorem Memory.Keeps.refl (m : Memory) (info : BlockInfo) : m.Keeps m info := fun _ _ _ => rfl

theorem Memory.Keeps.trans {m middle after : Memory} (hfirst : m.Keeps middle info)
    (hsecond : middle.Keeps after info) : m.Keeps after info := by
  intro offset haligned hholds
  rw [hsecond offset haligned hholds, hfirst offset haligned hholds]

/-- The bytes of a block in use are those of its words. -/
theorem Memory.Keeps.byte_eq {m after : Memory} (h : m.Keeps after info)
    (haligned : info.block.offset % 16 = 0) {offset : Nat} (hholds : info.HoldsAt offset) :
    after.byte offset = m.byte offset := by
  refine byte_eq_of_load_eq (h _ (by omega) ?_)
  simp only [BlockInfo.HoldsAt] at hholds ⊢
  omega

namespace Pool.Represents

variable {pool : Pool}

/-- Blocks in use lie apart from free ones. -/
theorem not_loose (h : pool.Represents blocks chains) (hinfo : info ∈ held blocks) {offset : Nat}
    (hcovers : info.Covers offset) : ¬ Loose blocks offset := by
  rintro ⟨other, hother, hfree, hcovered⟩
  obtain ⟨hmem, hallocated⟩ := mem_held.1 hinfo
  obtain rfl := h.laid.tiles.eq_of_covers hmem hother hcovers hcovered
  rw [hallocated] at hfree
  cases hfree

/-- A change to free blocks and elsewhere keeps a block in use that lies apart from it. -/
theorem keeps (h : pool.Represents blocks chains) (hinfo : info ∈ held blocks) {after : Memory}
    {elsewhere : Nat → Prop}
    (hchange : pool.arena.memory.Rewrites after fun offset _ =>
      Loose blocks offset ∨ elsewhere offset)
    (hapart : ∀ offset, info.Covers offset → ¬ elsewhere offset) :
    pool.arena.memory.Keeps after info := by
  intro offset haligned hholds
  apply hchange.load_eq haligned
  rintro word (hloose | helsewhere)
  · exact h.not_loose hinfo hholds.covers hloose
  · exact hapart offset hholds.covers helsewhere

theorem keeps_of_loose (h : pool.Represents blocks chains) (hinfo : info ∈ held blocks)
    {after : Memory}
    (hchange : pool.arena.memory.Rewrites after fun offset _ => Loose blocks offset) :
    pool.arena.memory.Keeps after info := fun _ haligned hholds =>
  hchange.load_eq haligned fun _ => h.not_loose hinfo hholds.covers

end Pool.Represents

namespace Pool.Orderly

variable {pool : Pool}

/-- The lists name the free blocks, each in the class of its size. -/
theorem mem_chains_iff (h : pool.Orderly blocks chains) {sizeClass : SizeClass}
    {block : Block} : block ∈ chains sizeClass ↔ ∃ info ∈ blocks, info.block = block ∧
      info.allocated = false ∧ SizeClass.ofSize info.size = sizeClass := by
  refine ⟨h.represents.listed, ?_⟩
  rintro ⟨info, hinfo, rfl, hfree, rfl⟩
  exact h.tidy.listed info hinfo hfree

/-- All lists together name every free block once. -/
theorem flatMap_chains_perm (h : pool.Orderly blocks chains) :
    ((List.finRange classCount).flatMap chains).Perm
      ((blocks.filter fun info => !info.allocated).map BlockInfo.block) := by
  have hfree := h.represents.laid.tiles.nodup_map_block rfl
    (List.filter_sublist (p := fun info : BlockInfo => !info.allocated))
  refine (List.perm_ext_iff_of_nodup ?_ hfree).2 fun block => ?_
  · exact Chains.nodup_members h.represents.threads.nodup h.represents.threads.class_eq
  · simp only [List.mem_flatMap, List.mem_finRange, true_and, h.mem_chains_iff, List.mem_map,
      List.mem_filter, Bool.not_eq_true']
    constructor
    · rintro ⟨sizeClass, info, hinfo, rfl, hfree, -⟩
      exact ⟨info, ⟨hinfo, hfree⟩, rfl⟩
    · rintro ⟨info, ⟨hinfo, hfree⟩, rfl⟩
      exact ⟨_, info, hinfo, rfl, hfree, rfl⟩

end Pool.Orderly

end BoundaryTag
