import BoundaryTag.Proofs.Heap.Sound
import BoundaryTag.Proofs.Pool.Rebase

namespace BoundaryTag

variable {ρ σ α β γ δ : Type} [Region ρ] [GrowsByLength ρ] [Region σ] [GrowsByLength σ]

/-- Obliging regions of the same length and capacity grant and refuse the same. -/
theorem GrowsByLength.error_iff {region : ρ} {other : σ} (hregion : Obliging region)
    (hother : Obliging other)
    (hlen : Region.len other = Region.len region)
    (hcapacity : GrowsInPlace.capacity other = GrowsInPlace.capacity region) (bytes : Nat)
    (error : RegionError) :
    (Region.grow other bytes).1 = .error error ↔ (Region.grow region bytes).1 = .error error := by
  rw [GrowsByLength.grow_eq hother, GrowsByLength.grow_eq hregion, hlen, hcapacity]
  split
  · rfl
  · split
    · rfl
    · simp

namespace Heap

/-- The heap lies at `here` and its twin at `there`, and there is no other difference between them
    but the kind of region that they are over. Both regions grant whatever fits. -/
structure Twins (here there : Nat) (heap : Heap ρ) (twin : Heap σ) : Prop where
  base_eq : heap.pool.arena.base = here
  region_eq : Region.base heap.region = here
  addressable : Region.Addressable heap.region
  obliging : GrowsByLength.Obliging heap.region
  pool_eq : twin.pool = heap.pool.moveTo there
  twin_region_eq : Region.base twin.region = there
  twin_len_eq : Region.len twin.region = Region.len heap.region
  twin_capacity_eq :
    GrowsInPlace.capacity twin.region = GrowsInPlace.capacity heap.region
  twin_addressable : Region.Addressable twin.region
  twin_obliging : GrowsByLength.Obliging twin.region

/-- Two addresses that stand for one offset. -/
def SameOffset (here there address other : Nat) : Prop :=
  ∃ offset, address = here + offset ∧ other = there + offset

/-- The same refusal, or two things granted that are related. -/
inductive SameVerdict (rel : α → β → Prop) : Except HeapError α → Except HeapError β → Prop
  | granted {a : α} {b : β} (hrel : rel a b) : SameVerdict rel (.ok a) (.ok b)
  | refused (error : HeapError) : SameVerdict rel (.error error) (.error error)

/-- Work on a twin ends as it does on the heap: with a related answer, with the same log, and with
    a twin of what the heap has become. Nothing is said where the work on the heap fails. -/
inductive Matches (here there : Nat) (rel : α → β → Prop) :
    EStateM.Result Fault (Array Event) (α × Heap ρ) →
      EStateM.Result Fault (Array Event) (β × Heap σ) → Prop
  | answered {a : α} {b : β} {after : Heap ρ} {twin : Heap σ} {log : Array Event} (hrel : rel a b)
    (htwins : Twins here there after twin) :
    Matches here there rel (.ok (a, after) log) (.ok (b, twin) log)
  | failed {fault : Fault} {log : Array Event}
    {result : EStateM.Result Fault (Array Event) (β × Heap σ)} :
    Matches here there rel (.error fault log) result

variable {here there : Nat} {rel : α → β → Prop} {post : γ → δ → Prop} {heap after : Heap ρ}
  {twin : Heap σ} {log log' : Array Event}

namespace Matches

theorem of_ok {a : α} {result : EStateM.Result Fault (Array Event) (β × Heap σ)}
    (h : Matches here there rel (.ok (a, after) log) result) :
    ∃ b twin, result = .ok (b, twin) log ∧ rel a b ∧ Twins here there after twin := by
  cases h with
  | answered hrel htwins => exact ⟨_, _, rfl, hrel, htwins⟩

theorem bind {first : HeapM ρ α} {second : HeapM σ β} {f : α → HeapM ρ γ} {g : β → HeapM σ δ}
    (h : Matches here there rel (first.runOn heap log) (second.runOn twin log))
    (hnext : ∀ a b after after' log', rel a b → Twins here there after after' →
      Matches here there post ((f a).runOn after log') ((g b).runOn after' log')) :
    Matches here there post ((first >>= f).runOn heap log) ((second >>= g).runOn twin log) := by
  rw [HeapM.runOn_bind, HeapM.runOn_bind]
  cases hfirst : first.runOn heap log with
  | error fault log' => exact .failed
  | ok state log' =>
    obtain ⟨a, after⟩ := state
    rw [hfirst] at h
    obtain ⟨b, after', hsecond, hrel, htwins⟩ := h.of_ok
    rw [hsecond]
    exact hnext a b after after' log' hrel htwins

theorem bind_request {first : RequestM ρ α} {second : RequestM σ β} {f : α → RequestM ρ γ}
    {g : β → RequestM σ δ}
    (h : Matches here there (SameVerdict rel) (first.runOn heap log) (second.runOn twin log))
    (hnext : ∀ a b after after' log', rel a b → Twins here there after after' →
      Matches here there (SameVerdict post) ((f a).runOn after log') ((g b).runOn after' log')) :
    Matches here there (SameVerdict post) ((first >>= f).runOn heap log)
      ((second >>= g).runOn twin log) := by
  rw [RequestM.runOn_bind, RequestM.runOn_bind]
  cases hfirst : first.runOn heap log with
  | error fault log' => exact .failed
  | ok state log' =>
    obtain ⟨answer, after⟩ := state
    rw [hfirst] at h
    obtain ⟨other, after', hsecond, hverdict, htwins⟩ := h.of_ok
    rw [hsecond]
    cases hverdict with
    | granted hrel => exact hnext _ _ after after' log' hrel htwins
    | refused error => exact .answered (.refused error) htwins

/-- A refusal on both sides is recorded and handed on. -/
theorem tryCatch {first : RequestM ρ α} {second : RequestM σ β}
    (h : Matches here there (SameVerdict rel) (first.runOn heap log) (second.runOn twin log))
    (event : HeapError → Event) :
    Matches here there (SameVerdict rel)
      ((tryCatch first fun error => do
        record (event error)
        throw error : RequestM ρ α).runOn heap log)
      ((tryCatch second fun error => do
        record (event error)
        throw error : RequestM σ β).runOn twin log) := by
  rw [RequestM.runOn_tryCatch, RequestM.runOn_tryCatch]
  cases hfirst : first.runOn heap log with
  | error fault log' => exact .failed
  | ok state log' =>
    obtain ⟨answer, after⟩ := state
    rw [hfirst] at h
    obtain ⟨other, after', hsecond, hverdict, htwins⟩ := h.of_ok
    rw [hsecond]
    cases hverdict with
    | granted hrel => exact .answered (.granted hrel) htwins
    | refused error =>
      simp only [RequestM.runOn_bind, RequestM.runOn_record, RequestM.runOn_throw]
      exact .answered (.refused error) htwins

theorem granted {first : RequestM ρ α} {second : RequestM σ β}
    (h : Matches here there (SameVerdict rel) (first.runOn heap log) (second.runOn twin log)) :
    Matches here there (Option.Rel rel) (first.granted.runOn heap log)
      (second.granted.runOn twin log) := by
  rw [RequestM.runOn_granted, RequestM.runOn_granted]
  cases hfirst : first.runOn heap log with
  | error fault log' => exact .failed
  | ok state log' =>
    obtain ⟨answer, after⟩ := state
    rw [hfirst] at h
    obtain ⟨other, after', hsecond, hverdict, htwins⟩ := h.of_ok
    rw [hsecond]
    cases hverdict with
    | granted hrel => exact .answered (.some hrel) htwins
    | refused error => exact .answered .none htwins

end Matches

namespace Twins

theorem of_refuses (h : Twins here there heap twin) {after' : Heap σ} (hleft : heap.Refuses after)
    (hright : twin.Refuses after') (hregion : GrowsByLength.Obliging after.region)
    (hother : GrowsByLength.Obliging after'.region) : Twins here there after after' where
  obliging := hregion
  twin_obliging := hother
  base_eq := by rw [hleft.pool_eq, h.base_eq]
  region_eq := by rw [hleft.base_eq, h.region_eq]
  addressable := by
    rw [Region.Addressable, hleft.base_eq, hleft.capacity_eq]
    exact h.addressable
  pool_eq := by rw [hright.pool_eq, hleft.pool_eq, h.pool_eq]
  twin_region_eq := by rw [hright.base_eq, h.twin_region_eq]
  twin_len_eq := by rw [hright.len_eq, hleft.len_eq, h.twin_len_eq]
  twin_capacity_eq := by rw [hright.capacity_eq, hleft.capacity_eq, h.twin_capacity_eq]
  twin_addressable := by
    rw [Region.Addressable, hright.base_eq, hright.capacity_eq]
    exact h.twin_addressable

theorem with_pool (h : Twins here there heap twin) {pool : Pool}
    (hbase : pool.arena.base = heap.pool.arena.base) :
    Twins here there { heap with pool } { twin with pool := pool.moveTo there } :=
  ⟨hbase.trans h.base_eq, h.region_eq, h.addressable, h.obliging, rfl, h.twin_region_eq,
    h.twin_len_eq, h.twin_capacity_eq, h.twin_addressable, h.twin_obliging⟩

/-- Work on the pool that goes on alike everywhere, and so leaves the arena where it is. -/
theorem of_pair (h : Twins here there heap twin) (work : Pool → Except Fault (α × Pool))
    (hwork : ∀ base, work (heap.pool.moveTo base) =
      Prod.map id (·.moveTo base) <$> work heap.pool) {value : α} {pool : Pool}
    (hrun : work heap.pool = .ok (value, pool)) :
    work twin.pool = .ok (value, pool.moveTo there) ∧
      Twins here there { heap with pool } { twin with pool := pool.moveTo there } := by
  have hself := hwork heap.pool.arena.base
  rw [show heap.pool.moveTo heap.pool.arena.base = heap.pool from rfl, hrun, map_ok] at hself
  refine ⟨?_, h.with_pool (congrArg (fun state => state.2.arena.base) (Except.ok.inj hself))⟩
  rw [h.pool_eq, hwork, hrun]
  rfl

theorem of_pool (h : Twins here there heap twin) (work : Pool → Except Fault Pool)
    (hwork : ∀ base, work (heap.pool.moveTo base) = (·.moveTo base) <$> work heap.pool)
    {pool : Pool} (hrun : work heap.pool = .ok pool) :
    work twin.pool = .ok (pool.moveTo there) ∧
      Twins here there { heap with pool } { twin with pool := pool.moveTo there } := by
  have hself := hwork heap.pool.arena.base
  rw [show heap.pool.moveTo heap.pool.arena.base = heap.pool from rfl, hrun, map_ok] at hself
  refine ⟨?_, h.with_pool (congrArg (fun pool => pool.arena.base) (Except.ok.inj hself))⟩
  rw [h.pool_eq, hwork, hrun]
  rfl

/-- A pool is in order wherever it lies. -/
theorem sound (h : Twins here there heap twin) {blocks : List BlockInfo} {chains : Chains}
    (hsound : heap.Sound blocks chains) (hmod : there % 16 = 0) : twin.Sound blocks chains where
  orderly := by
    obtain ⟨⟨hlaid, hthreads, hlisted⟩, htidy⟩ := hsound.orderly
    rw [h.pool_eq]
    exact ⟨⟨⟨hlaid.tiles, hlaid.short, hlaid.tagged, hlaid.front, hlaid.last⟩,
      ⟨hthreads.head_eq, hthreads.linked, hthreads.nodup, hthreads.class_eq, hthreads.spaced,
        hthreads.inside, hthreads.short⟩, hlisted⟩, htidy⟩
  base_eq := by
    rw [h.pool_eq, h.twin_region_eq]
    rfl
  len_eq := by
    rw [h.pool_eq, h.twin_len_eq]
    exact hsound.len_eq
  base_mod := by
    rw [h.pool_eq]
    exact hmod
  len_le := by
    rw [h.pool_eq, h.twin_capacity_eq]
    exact hsound.len_le
  addressable := by
    rw [h.pool_eq, Pool.arena_moveTo, Arena.base_moveTo, ← h.twin_region_eq]
    exact h.twin_addressable

end Twins

end Heap

end BoundaryTag
