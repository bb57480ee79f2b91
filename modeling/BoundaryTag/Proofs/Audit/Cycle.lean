import BoundaryTag.Audit.Cycle
import BoundaryTag.Proofs.Audit.Survey
import Mathlib.Data.Finset.Card
import Mathlib.Logic.Function.Iterate

namespace BoundaryTag

namespace Memory

/-- The block that the back link of `block` names. -/
def prevOf (m : Memory) (block : Block) : Option Block := Link.ofWord (m.load block.offset)

/-- The block that the forward link of `block` names. -/
def nextOf (m : Memory) (block : Block) : Option Block := Link.ofWord (m.load (block.offset + 8))

end Memory

namespace Arena

/-- The block after `block` in its list, if its links may be read at all. -/
def after (a : Arena) (block : Block) : Option Block :=
  if a.Followable block then a.memory.nextOf block else none

/-- Where `steps` links lead. -/
def reach (a : Arena) (start : Option Block) (steps : Nat) : Option Block :=
  (fun cursor => cursor.bind a.after)^[steps] start

variable {a : Arena} {block : Block} {start : Option Block}

theorem followable_iff : a.Followable block ↔ block.offset % 16 = 0 ∧ 16 ≤ block.offset ∧
    block.offset + 32 ≤ a.len ∧ block.offset + 32 < UInt64.size := by
  simp only [Followable, Holds, smallestBlock, tagBytes, alignment]
  omega

theorem WellPlaced.followable_iff (h : a.WellPlaced) : a.Followable block ↔
    block.offset % 16 = 0 ∧ 16 ≤ block.offset ∧ block.offset + 32 ≤ a.len := by
  have hshort := h.short
  rw [Arena.followable_iff]
  omega

theorem Followable.link_eq (h : a.Followable block) :
    a.link block = .ok ⟨a.memory.prevOf block, a.memory.nextOf block⟩ := by
  obtain ⟨haligned, -, hstop, hshort⟩ := followable_iff.1 h
  rw [link, a.load_eq_ok (by omega) (by omega), ok_bind, wordBytes,
    a.build.add_eq_ok (by omega), ok_bind, a.load_eq_ok (by omega) (by omega)]
  rfl

theorem follow_eq (a : Arena) (cursor : Option Block) :
    a.follow cursor = .ok (cursor.bind a.after) := by
  cases cursor with
  | none => rfl
  | some block =>
    simp only [follow, Option.bind_some, after]
    split
    · rename_i hblock
      rw [hblock.link_eq]
      rfl
    · rfl

theorem reach_succ (start : Option Block) (steps : Nat) :
    a.reach start (steps + 1) = (a.reach start steps).bind a.after :=
  Function.iterate_succ_apply' ..

theorem reach_add (start : Option Block) (more steps : Nat) :
    a.reach start (more + steps) = a.reach (a.reach start steps) more :=
  Function.iterate_add_apply ..

theorem reach_none (steps : Nat) : a.reach none steps = none :=
  Function.iterate_fixed rfl steps

/-- A list that has ended stays so. -/
theorem reach_eq_none_of_le {steps more : Nat} (hend : a.reach start steps = none)
    (hle : steps ≤ more) : a.reach start more = none := by
  rw [← Nat.sub_add_cancel hle, reach_add, hend, reach_none]

/-- A list that comes back to a block does so again and again: from there on it repeats itself. -/
theorem exists_period {first second : Nat} (hlt : first < second)
    (hcycle : a.reach start first = a.reach start second) : ∃ period, 0 < period ∧
      ∀ steps, first ≤ steps → ∀ rounds,
        a.reach start (period * rounds + steps) = a.reach start steps := by
  obtain ⟨period, rfl⟩ := Nat.exists_eq_add_of_le (Nat.le_of_lt hlt)
  refine ⟨period, by omega, fun steps hsteps rounds => ?_⟩
  obtain ⟨more, rfl⟩ := Nat.exists_eq_add_of_le' hsteps
  have hback : a.reach (a.reach start (more + first)) period = a.reach start (more + first) := by
    calc a.reach (a.reach start (more + first)) period
      _ = a.reach start (more + (first + period)) := by
        rw [← reach_add, Nat.add_left_comm, Nat.add_comm period]
      _ = a.reach start (more + first) := by rw [reach_add, ← hcycle, ← reach_add]
  rw [reach_add, reach, Function.iterate_mul]
  exact Function.iterate_fixed hback rounds

/-- A list that comes back to a block never ends. -/
theorem reach_ne_none_of_cycle {first second : Nat} (hne : a.reach start first ≠ none)
    (hlt : first < second) (hcycle : a.reach start first = a.reach start second) (steps : Nat) :
    a.reach start steps ≠ none := by
  intro hend
  obtain ⟨period, hpos, hrepeat⟩ := exists_period hlt hcycle
  have hle : steps ≤ period * steps + first :=
    Nat.le_add_right_of_le (Nat.le_mul_of_pos_left steps hpos)
  have hagain := hrepeat first (Nat.le_refl first) steps
  exact hne (hagain.symm.trans (reach_eq_none_of_le hend hle))

/-- Every link but the last leads to one of the places in the arena. -/
theorem followable_of_reach {steps : Nat} (hnext : a.reach start (steps + 1) ≠ none) :
    ∃ block, a.reach start steps = some block ∧ a.Followable block := by
  rw [reach_succ] at hnext
  cases hblock : a.reach start steps with
  | none => simp [hblock] at hnext
  | some block =>
    refine ⟨block, rfl, ?_⟩
    by_contra hlost
    simp [hblock, after, hlost] at hnext

/-- A list that is longer than there are places in the arena comes back to one of them. -/
theorem exists_repeat (hlong : a.reach start (a.len / 16 + 1) ≠ none) : ∃ first second,
    first < second ∧ a.reach start first ≠ none ∧ a.reach start first = a.reach start second := by
  have hplace : ∀ i ∈ Finset.range (a.len / 16 + 1), ∃ block,
      a.reach start i = some block ∧ a.Followable block := fun i hi =>
    followable_of_reach fun hnone =>
      hlong (reach_eq_none_of_le hnone (by have := Finset.mem_range.1 hi; omega))
  have hmaps : ∀ i ∈ Finset.range (a.len / 16 + 1),
      ((a.reach start i).map Block.offset).getD 0 / 16 ∈ Finset.range (a.len / 16) := by
    intro i hi
    obtain ⟨block, hblock, hfollowable⟩ := hplace i hi
    obtain ⟨-, -, hstop, -⟩ := followable_iff.1 hfollowable
    rw [hblock, Finset.mem_range, Option.map_some, Option.getD_some]
    omega
  obtain ⟨i, hi, j, hj, hne, heq⟩ :=
    Finset.exists_ne_map_eq_of_card_lt_of_maps_to (by simp) hmaps
  obtain ⟨x, hx, hxplace⟩ := hplace i hi
  obtain ⟨y, hy, hyplace⟩ := hplace j hj
  have hxaligned := (followable_iff.1 hxplace).1
  have hyaligned := (followable_iff.1 hyplace).1
  rw [hx, hy, Option.map_some, Option.map_some, Option.getD_some, Option.getD_some] at heq
  have hsame : a.reach start i = a.reach start j := by
    rw [hx, hy, Block.ext (b := x) (c := y) (by omega)]
  rcases Nat.lt_or_gt_of_ne hne with hlt | hlt
  · exact ⟨i, j, hlt, by simp [hx], hsame⟩
  · exact ⟨j, i, hlt, by simp [hy], hsame.symm⟩

/-- The lists that never end are those that come back to a block. -/
theorem reach_ne_none_iff : (∀ steps, a.reach start steps ≠ none) ↔ ∃ first second,
    first < second ∧ a.reach start first ≠ none ∧ a.reach start first = a.reach start second :=
  ⟨fun hendless => exists_repeat (hendless _),
    fun ⟨_, _, hlt, hne, hsame⟩ => reach_ne_none_of_cycle hne hlt hsame⟩

/-- A list that ends does so before it runs out of places in the arena. -/
theorem reach_eq_none {steps : Nat} (hend : a.reach start steps = none) :
    a.reach start (a.len / 16 + 1) = none := by
  by_contra hlong
  obtain ⟨first, second, hlt, hne, hsame⟩ := exists_repeat hlong
  exact reach_ne_none_of_cycle hne hlt hsame steps hend

/-- One round of the race: two links for the fast end, and one for the slow end. -/
theorem race_succ (a : Arena) (start : Option Block) (steps rounds : Nat) :
    a.race (steps + 1) (a.reach start rounds) (a.reach start (2 * rounds)) =
      if (a.reach start (2 * (rounds + 1))).isNone then .ok false
      else if a.reach start (2 * (rounds + 1)) = a.reach start (rounds + 1) then .ok true
      else a.race steps (a.reach start (rounds + 1)) (a.reach start (2 * (rounds + 1))) := by
  rw [race, follow_eq, ok_bind, follow_eq, ok_bind, follow_eq, ok_bind,
    ← reach_succ, ← reach_succ, ← reach_succ]
  rfl

theorem race_of_endless (hendless : ∀ steps, a.reach start steps ≠ none) (steps rounds : Nat) :
    a.race steps (a.reach start rounds) (a.reach start (2 * rounds)) = .ok true := by
  induction steps generalizing rounds with
  | zero => rfl
  | succ steps ih =>
    have hsome : ¬ (a.reach start (2 * (rounds + 1))).isNone := by
      simpa using hendless _
    rw [race_succ, if_neg hsome, ih]
    split <;> rfl

/-- The fast end gets to the end of the list, and does not meet the slow one before. -/
theorem race_of_end {stop : Nat} (hend : a.reach start stop = none) {steps rounds : Nat}
    (hsteps : 0 < steps) (hroom : stop ≤ 2 * (rounds + steps)) :
    a.race steps (a.reach start rounds) (a.reach start (2 * rounds)) = .ok false := by
  induction steps generalizing rounds with
  | zero => omega
  | succ steps ih =>
    rw [race_succ]
    by_cases hnone : (a.reach start (2 * (rounds + 1))).isNone
    · rw [if_pos hnone]
    · -- The two ends are at different numbers of links, so if they met, the list would come back.
      have hmeet : a.reach start (2 * (rounds + 1)) ≠ a.reach start (rounds + 1) := by
        intro hsame
        have hne : a.reach start (rounds + 1) ≠ none := by
          rw [← hsame]
          simpa using hnone
        exact reach_ne_none_of_cycle hne (by omega) hsame.symm stop hend
      rw [if_neg hnone, if_neg hmeet]
      apply ih
      · rcases Nat.eq_zero_or_pos steps with rfl | hpos
        · exact absurd (reach_eq_none_of_le hend hroom) (by simpa using hnone)
        · exact hpos
      · omega

/-- The walk answers on any contents, and tells whether the list never ends. -/
theorem endless_spec (a : Arena) (start : Option Block) :
    ∃ answer, a.endless start = .ok answer ∧
      (answer = true ↔ ∀ steps, a.reach start steps ≠ none) := by
  by_cases hendless : ∀ steps, a.reach start steps ≠ none
  · exact ⟨true, race_of_endless hendless a.listBound 0, by simpa using hendless⟩
  · obtain ⟨stop, hend⟩ := not_forall_not.1 hendless
    have hbound := reach_eq_none hend
    have hrace : a.race a.listBound (a.reach start 0) (a.reach start (2 * 0)) = .ok false := by
      refine race_of_end hbound (Nat.succ_pos _) ?_
      simp only [listBound, alignment]
      omega
    exact ⟨false, hrace, by simpa using hendless⟩

end Arena

end BoundaryTag
