import BoundaryTag.Proofs.Pool.Tidy
import BoundaryTag.Proofs.Pool.Walk

namespace BoundaryTag

/-- How many bytes some blocks span, their tags included. -/
def spannedBytes : List BlockInfo → Nat
  | [] => 0
  | info :: rest => info.size + spannedBytes rest

/-- The size of the largest of some blocks, zero if there are none. -/
def largestSize (blocks : List BlockInfo) : Nat := (blocks.map BlockInfo.size).max?.getD 0

variable {blocks : List BlockInfo} {info : BlockInfo}

@[simp] theorem spannedBytes_nil : spannedBytes [] = 0 := rfl

@[simp] theorem spannedBytes_cons (info : BlockInfo) (rest : List BlockInfo) :
    spannedBytes (info :: rest) = info.size + spannedBytes rest :=
  rfl

@[simp] theorem spannedBytes_append (front rest : List BlockInfo) :
    spannedBytes (front ++ rest) = spannedBytes front + spannedBytes rest := by
  induction front with
  | nil => rw [List.nil_append, spannedBytes_nil, Nat.zero_add]
  | cons info front ih =>
    rw [List.cons_append, spannedBytes_cons, spannedBytes_cons, ih, Nat.add_assoc]

@[simp] theorem largestSize_nil : largestSize [] = 0 := rfl

@[simp] theorem largestSize_cons (info : BlockInfo) (rest : List BlockInfo) :
    largestSize (info :: rest) = max info.size (largestSize rest) := by
  rw [largestSize, largestSize, List.map_cons, List.max?_cons]
  cases (rest.map BlockInfo.size).max? <;> simp

/-- Every block is either in use or free. -/
theorem length_held_add_vacant (blocks : List BlockInfo) :
    (held blocks).length + (vacant blocks).length = blocks.length := by
  induction blocks with
  | nil => rfl
  | cons info rest ih =>
    cases hstate : info.allocated with
    | true =>
      rw [held_cons_of_allocated hstate, vacant_cons_of_allocated hstate, List.length_cons,
        List.length_cons]
      omega
    | false =>
      rw [held_cons_of_free hstate, vacant_cons_of_free hstate, List.length_cons,
        List.length_cons]
      omega

theorem spannedBytes_held_add_vacant (blocks : List BlockInfo) :
    spannedBytes (held blocks) + spannedBytes (vacant blocks) = spannedBytes blocks := by
  induction blocks with
  | nil => rfl
  | cons info rest ih =>
    cases hstate : info.allocated with
    | true =>
      rw [held_cons_of_allocated hstate, vacant_cons_of_allocated hstate, spannedBytes_cons,
        spannedBytes_cons]
      omega
    | false =>
      rw [held_cons_of_free hstate, vacant_cons_of_free hstate, spannedBytes_cons,
        spannedBytes_cons]
      omega

/-- Blocks that lie end to end span all there is between the first and the last of them. -/
theorem Tiles.add_spannedBytes {start stop : Nat} (h : Tiles start blocks stop) :
    start + spannedBytes blocks = stop := by
  induction blocks generalizing start with
  | nil => exact h
  | cons info rest ih =>
    obtain ⟨hstart, -, -, hrest⟩ := h
    have hbehind := ih hrest
    rw [BlockInfo.stop] at hbehind
    rw [spannedBytes_cons]
    omega

namespace Stats

/-- The figures after some more blocks. -/
def tally (stats : Stats) (blocks : List BlockInfo) : Stats where
  arenaBytes := stats.arenaBytes
  allocatedBlocks := stats.allocatedBlocks + (held blocks).length
  allocatedBytes := stats.allocatedBytes + spannedBytes (held blocks)
  freeBlocks := stats.freeBlocks + (vacant blocks).length
  freeBytes := stats.freeBytes + spannedBytes (vacant blocks)
  largestFree := max stats.largestFree (largestSize (vacant blocks))

/-- One more block goes to the figures on blocks in use or to those on free ones. -/
theorem count_eq (build : Build) {stats : Stats}
    (hroom : stats.allocatedBytes + stats.freeBytes + info.size < UInt64.size) :
    stats.count build info = .ok (stats.tally [info]) := by
  cases hstate : info.allocated with
  | true =>
    rw [count, if_pos hstate, Build.add_eq_ok _ (by omega), ok_bind, tally,
      held_cons_of_allocated hstate, vacant_cons_of_allocated hstate]
    simp
  | false =>
    rw [count, if_neg (by simp [hstate]), Build.add_eq_ok _ (by omega), ok_bind, tally,
      held_cons_of_free hstate, vacant_cons_of_free hstate]
    simp

theorem tally_cons (stats : Stats) (info : BlockInfo) (rest : List BlockInfo) :
    (stats.tally [info]).tally rest = stats.tally (info :: rest) := by
  cases hstate : info.allocated with
  | true =>
    simp [tally, held_cons_of_allocated hstate, vacant_cons_of_allocated hstate, Nat.add_assoc,
      Nat.add_comm 1]
  | false =>
    simp [tally, held_cons_of_free hstate, vacant_cons_of_free hstate, Nat.add_assoc,
      Nat.add_comm 1, Nat.max_assoc]

theorem foldlM_count (build : Build) {stats : Stats}
    (hroom : stats.allocatedBytes + stats.freeBytes + spannedBytes blocks < UInt64.size) :
    blocks.foldlM (count build) stats = .ok (stats.tally blocks) := by
  induction blocks generalizing stats with
  | nil => simp [tally]
  | cons info rest ih =>
    rw [spannedBytes_cons] at hroom
    have hone : (stats.tally [info]).allocatedBytes + (stats.tally [info]).freeBytes =
        stats.allocatedBytes + stats.freeBytes + info.size := by
      have := spannedBytes_held_add_vacant [info]
      simp only [tally, spannedBytes_cons, spannedBytes_nil] at this ⊢
      omega
    rw [List.foldlM_cons, count_eq _ (by omega), ok_bind, ih (by omega), tally_cons]

end Stats

/-- The figures of a pool are those of the blocks that it is laid out as. -/
theorem Pool.stats_eq {pool : Pool} (h : pool.arena.Laid blocks) :
    pool.stats = .ok (Stats.tally { arenaBytes := pool.arena.len } blocks) := by
  have hsum := h.tiles.add_spannedBytes
  have hshort := h.short
  rw [stats, blocks_eq h, ok_bind]
  refine Stats.foldlM_count _ ?_
  simp only [Nat.add_zero]
  omega

end BoundaryTag
