import BoundaryTag.Pool.Fit
import BoundaryTag.Pool.Release

namespace BoundaryTag

/-- A passed assertion leaves no trace. -/
theorem Build.require_bind_eq_ok {α : Type} {build : Build} {condition : Prop}
    [Decidable condition] {fault : Fault} {next : Unit → Except Fault α} {value : α} :
    (build.require condition fault >>= next) = .ok value ↔
      (condition ∨ build = .unchecked) ∧ next () = .ok value := by
  rw [require]
  split <;> simp [*]

/-- The same arena, starting at the address `base`. -/
def Arena.moveTo (a : Arena) (base : Nat) : Arena := { a with base }

/-- The same pool, in an arena that starts at the address `base`. A pool reaches its words by their
    offsets, so that only addresses tell one place from another. -/
def Pool.moveTo (pool : Pool) (base : Nat) : Pool := { pool with arena := pool.arena.moveTo base }

namespace Arena

variable (a : Arena) (base : Nat)

@[simp] theorem build_moveTo : (a.moveTo base).build = a.build := rfl

@[simp] theorem base_moveTo : (a.moveTo base).base = base := rfl

@[simp] theorem len_moveTo : (a.moveTo base).len = a.len := rfl

@[simp] theorem header_moveTo (block : Block) : (a.moveTo base).header block = a.header block := rfl

@[simp] theorem successor_moveTo (block : Block) :
    (a.moveTo base).successor block = a.successor block := rfl

@[simp] theorem link_moveTo (block : Block) : (a.moveTo base).link block = a.link block := rfl

@[simp] theorem sizeOf?_moveTo (block : Option Block) :
    (a.moveTo base).sizeOf? block = a.sizeOf? block := by
  cases block <;> rfl

@[simp] theorem firstFit?_moveTo (size limit : Nat) (start : Option Block) :
    (a.moveTo base).firstFit? size limit start = a.firstFit? size limit start := by
  induction limit generalizing start with
  | zero => rfl
  | succ limit ih =>
    cases start with
    | none => rfl
    | some block => simp only [firstFit?, link_moveTo, header_moveTo, ih]

@[simp] theorem store_moveTo (offset : Nat) (word : UInt64) :
    (a.moveTo base).store offset word = (·.moveTo base) <$> a.store offset word := by
  have hcheck : (a.moveTo base).checkWord offset = a.checkWord offset := rfl
  simp only [store, hcheck, map_bind]
  rfl

@[simp] theorem putTags_moveTo (block : Block) (tag : Tag) :
    (a.moveTo base).putTags block tag = (·.moveTo base) <$> a.putTags block tag := by
  simp only [putTags, putTag, store_moveTo, build_moveTo, map_bind, bind_map_left]

@[simp] theorem putLink_moveTo (block : Block) (link : Link) :
    (a.moveTo base).putLink block link = (·.moveTo base) <$> a.putLink block link := by
  simp only [putLink, putPrev, putNext, store_moveTo, build_moveTo, map_bind, bind_map_left]

/-- What an address stands for, seen from the place of the arena. -/
theorem blockAt?_moveTo (offset : Nat) :
    (a.moveTo base).blockAt? (base + offset) = a.blockAt? (a.base + offset) := by
  simp only [blockAt?, base_moveTo, len_moveTo, Nat.add_sub_cancel_left, Nat.le_add_right,
    true_and]

theorem fill_moveTo (offset count : Nat) (f : Nat → UInt8) :
    (a.moveTo base).fill (base + offset) count f =
      (a.fill (a.base + offset) count f).moveTo base := by
  simp only [fill, base_moveTo, Nat.add_sub_cancel_left]
  rfl

theorem zero_moveTo (offset count : Nat) :
    (a.moveTo base).zero (base + offset) count =
      (a.zero (a.base + offset) count).moveTo base := by
  simp only [zero, base_moveTo, Nat.add_sub_cancel_left]
  rfl

theorem copy_moveTo (source target count : Nat) :
    (a.moveTo base).copy (base + source) (base + target) count =
      (a.copy (a.base + source) (a.base + target) count).moveTo base := by
  simp only [copy, base_moveTo, Nat.add_sub_cancel_left]
  rfl

end Arena

namespace FreeIndex

variable (index : FreeIndex) (a : Arena) (base : Nat)

theorem insert_moveTo (block : Block) : index.insert (a.moveTo base) block =
    Prod.map id (·.moveTo base) <$> index.insert a block := by
  simp only [insert, Arena.header_moveTo, Arena.putLink_moveTo, map_bind, bind_map_left]
  refine bind_congr fun tag => bind_congr fun linked => ?_
  cases index.heads[SizeClass.ofSize tag.size] with
  | none => rfl
  | some head =>
    simp only [Arena.putPrev, Arena.store_moveTo, bind_map_left, map_bind]
    rfl

theorem erase_moveTo (block : Block) : index.erase (a.moveTo base) block =
    Prod.map id (·.moveTo base) <$> index.erase a block := by
  simp only [erase, Arena.header_moveTo, Arena.link_moveTo, map_bind]
  refine bind_congr fun tag => bind_congr fun link => ?_
  cases link.prev <;> cases link.next <;>
    simp only [Arena.putPrev, Arena.putNext, Arena.store_moveTo, Arena.build_moveTo, bind_map_left,
      map_bind, bind_assoc, pure_bind, map_pure, Prod.map, id]

end FreeIndex

namespace Pool

variable (pool : Pool) (base : Nat)

@[simp] theorem arena_moveTo : (pool.moveTo base).arena = pool.arena.moveTo base := rfl

@[simp] theorem index_moveTo : (pool.moveTo base).index = pool.index := rfl

@[simp] theorem putTags_moveTo (block : Block) (tag : Tag) :
    (pool.moveTo base).putTags block tag = (·.moveTo base) <$> pool.putTags block tag := by
  simp only [putTags, arena_moveTo, Arena.putTags_moveTo, map_bind, bind_map_left]
  rfl

@[simp] theorem enlist_moveTo (block : Block) :
    (pool.moveTo base).enlist block = (·.moveTo base) <$> pool.enlist block := by
  simp only [enlist, arena_moveTo, index_moveTo, FreeIndex.insert_moveTo, map_bind, bind_map_left]
  rfl

@[simp] theorem unlist_moveTo (block : Block) :
    (pool.moveTo base).unlist block = (·.moveTo base) <$> pool.unlist block := by
  simp only [unlist, arena_moveTo, index_moveTo, FreeIndex.erase_moveTo, map_bind, bind_map_left]
  rfl

@[simp] theorem close_moveTo (block : Block) :
    (pool.moveTo base).close block = (·.moveTo base) <$> pool.close block := by
  simp only [close, arena_moveTo, Arena.successor_moveTo, Arena.build_moveTo, Arena.putTag,
    Arena.store_moveTo, map_bind, bind_map_left]
  rfl

@[simp] theorem layOut_moveTo (start : Nat) :
    (pool.moveTo base).layOut start = (·.moveTo base) <$> pool.layOut start := by
  simp only [layOut, arena_moveTo, Arena.store_moveTo, map_bind, bind_map_left]
  refine bind_congr fun a => ?_
  have hpool : { pool.moveTo base with arena := a.moveTo base } =
      moveTo { pool with arena := a } base := rfl
  simp only [hpool, putTags_moveTo, close_moveTo, bind_map_left]

@[simp] theorem append_moveTo (block : Block) (size : Nat) :
    (pool.moveTo base).append block size = (·.moveTo base) <$> pool.append block size := by
  simp only [append, putTags_moveTo, close_moveTo, enlist_moveTo, map_bind, bind_map_left]

@[simp] theorem unlist?_moveTo (block : Option Block) :
    (pool.moveTo base).unlist? block = (·.moveTo base) <$> pool.unlist? block := by
  cases block with
  | none => rfl
  | some block => exact pool.unlist_moveTo base block

@[simp] theorem freeNeighbours_moveTo (block : Block) :
    (pool.moveTo base).freeNeighbours block = pool.freeNeighbours block := rfl

@[simp] theorem coalesce_moveTo (block : Block) : (pool.moveTo base).coalesce block =
    Prod.map id (·.moveTo base) <$> pool.coalesce block := by
  simp only [coalesce, freeNeighbours_moveTo, arena_moveTo, Arena.header_moveTo,
    Arena.sizeOf?_moveTo, Arena.build_moveTo, map_bind]
  refine bind_congr fun sides => bind_congr fun tag => ?_
  split
  · rfl
  · simp only [unlist_moveTo, unlist?_moveTo, putTags_moveTo, enlist_moveTo, map_bind,
      bind_map_left, map_pure, Prod.map, id]

@[simp] theorem fit?_moveTo (size : Nat) : (pool.moveTo base).fit? size = pool.fit? size := by
  simp only [fit?, arena_moveTo, index_moveTo, Arena.firstFit?_moveTo, Arena.build_moveTo]

@[simp] theorem take_moveTo (block : Block) (size : Nat) :
    (pool.moveTo base).take block size = (·.moveTo base) <$> pool.take block size := by
  simp only [take, unlist_moveTo, map_bind, bind_map_left, arena_moveTo, Arena.header_moveTo,
    Arena.build_moveTo]
  refine bind_congr fun unlisted => bind_congr fun tag => bind_congr fun rest => ?_
  split
  · exact putTags_moveTo _ _ _ _
  · simp only [putTags_moveTo, enlist_moveTo, map_bind, bind_map_left]

@[simp] theorem splitLead_moveTo (block : Block) (lead : Nat) :
    (pool.moveTo base).splitLead block lead =
      Prod.map id (·.moveTo base) <$> pool.splitLead block lead := by
  unfold splitLead
  split
  · rfl
  · simp only [putTags_moveTo, enlist_moveTo, coalesce_moveTo, arena_moveTo, Arena.header_moveTo,
      Arena.build_moveTo, map_bind, bind_map_left, map_pure, Prod.map, id]

@[simp] theorem splitTail_moveTo (block : Block) (size : Nat) :
    (pool.moveTo base).splitTail block size = (·.moveTo base) <$> pool.splitTail block size := by
  simp only [splitTail, arena_moveTo, Arena.header_moveTo, Arena.build_moveTo, map_bind]
  refine bind_congr fun tag => bind_congr fun rest => ?_
  split
  · rfl
  · simp only [putTags_moveTo, enlist_moveTo, coalesce_moveTo, map_bind, bind_map_left, map_pure,
      Prod.map, id]

/-- Only the fault of a release that is not allowed tells the address. -/
theorem release_moveTo {offset : Nat} {after : Pool}
    (h : pool.release (pool.arena.base + offset) = .ok after) :
    (pool.moveTo base).release (base + offset) = .ok (after.moveTo base) := by
  simp only [release, arena_moveTo, Arena.blockAt?_moveTo, Arena.build_moveTo, Arena.header_moveTo,
    Build.require_bind_eq_ok] at h ⊢
  refine ⟨h.1, ?_⟩
  cases hfound : pool.arena.blockAt? (pool.arena.base + offset) with
  | none =>
    rw [hfound] at h
    obtain rfl : pool = after := by simpa using h.2
    rfl
  | some block =>
    simp only [hfound] at h
    cases hheader : pool.arena.header block with
    | error fault => simp [hheader] at h
    | ok tag =>
      simp only [hheader, ok_bind, Build.require_bind_eq_ok] at h ⊢
      refine ⟨h.2.1, ?_⟩
      rw [← map_ok (·.moveTo base) after, ← h.2.2]
      split
      · rfl
      · simp only [putTags_moveTo, enlist_moveTo, coalesce_moveTo, map_bind, bind_map_left,
          map_pure, Prod.map]

end Pool

end BoundaryTag
