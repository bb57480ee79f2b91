import BoundaryTag.Proofs.Audit.Cycle

namespace BoundaryTag.Arena

/-- One round of the two-speed walk: the fast end moves two links, and the slow end one. -/
def raceRound (a : Arena) (slow fast : Option Block) :
    Except Fault (Option Block × Option Block) := do
  let fast ← a.follow (← a.follow fast)
  let slow ← a.follow slow
  return (slow, fast)

/-- The two-speed walk goes on until the fast end is at the end of the list or meets the slow one.
    Its answer is whether they met. -/
inductive Races (a : Arena) : (slow fast : Option Block) → (answer : Bool) → Prop where
  | ended {slow fast next : Option Block} (hround : a.raceRound slow fast = .ok (next, none)) :
    a.Races slow fast false
  | met {slow fast : Option Block} {block : Block}
    (hround : a.raceRound slow fast = .ok (some block, some block)) : a.Races slow fast true
  | round {slow fast next : Option Block} {block : Block} {answer : Bool}
    (hround : a.raceRound slow fast = .ok (next, some block)) (hapart : next ≠ some block)
    (hrest : a.Races next (some block) answer) : a.Races slow fast answer

variable {a : Arena} {slow fast : Option Block}

/-- What a round comes to is decided by the words, so there is one way to the end. -/
theorem Races.unique {answer other : Bool} (h : a.Races slow fast answer)
    (hother : a.Races slow fast other) : answer = other := by
  induction h with
  | ended hround =>
    cases hother with
    | ended _ => rfl
    | met hround' => cases hround.symm.trans hround'
    | round hround' _ _ => cases hround.symm.trans hround'
  | met hround =>
    cases hother with
    | ended hround' => cases hround.symm.trans hround'
    | met _ => rfl
    | round hround' hapart _ =>
      cases hround.symm.trans hround'
      exact absurd rfl hapart
  | round hround hapart _ ih =>
    cases hother with
    | ended hround' => cases hround.symm.trans hround'
    | met hround' =>
      cases hround.symm.trans hround'
      exact absurd rfl hapart
    | round hround' _ hrest =>
      cases hround.symm.trans hround'
      exact ih hrest

theorem raceRound_eq (a : Arena) (start : Option Block) (rounds : Nat) :
    a.raceRound (a.reach start rounds) (a.reach start (2 * rounds)) =
      .ok (a.reach start (rounds + 1), a.reach start (2 * (rounds + 1))) := by
  rw [raceRound, follow_eq, ok_bind, follow_eq, ok_bind, follow_eq, ok_bind,
    ← reach_succ, ← reach_succ, ← reach_succ]
  rfl

/-- Whatever the links are, the fast end gets to the end of the list or meets the slow one. -/
theorem exists_finish (a : Arena) (start : Option Block) : ∃ rounds,
    a.reach start (2 * (rounds + 1)) = none ∨
      a.reach start (2 * (rounds + 1)) = a.reach start (rounds + 1) := by
  by_cases hend : a.reach start (a.len / 16 + 1) = none
  · exact ⟨a.len / 16 + 1, .inl (reach_eq_none_of_le hend (by omega))⟩
  · obtain ⟨first, second, hlt, -, hcycle⟩ := exists_repeat hend
    obtain ⟨period, hpos, hrepeat⟩ := exists_period hlt hcycle
    -- The fast end is ahead by as many links as there were rounds. The ends meet when these are a
    -- multiple of the period and the slow end is on the cycle.
    have hlow : first + 1 ≤ period * (first + 1) := Nat.le_mul_of_pos_left _ hpos
    obtain ⟨rounds, hrounds⟩ := Nat.exists_eq_add_of_le' (Nat.le_trans (Nat.le_add_left 1 _) hlow)
    refine ⟨rounds, .inr ?_⟩
    calc a.reach start (2 * (rounds + 1))
      _ = a.reach start (period * (first + 1) + (rounds + 1)) := by rw [hrounds, Nat.two_mul]
      _ = a.reach start (rounds + 1) := hrepeat _ (by omega) _

/-- A round may end the walk. If it does not, the walk goes on as from the next round. -/
theorem races_of_round (a : Arena) (start : Option Block) (rounds : Nat)
    (hrest : a.reach start (2 * (rounds + 1)) ≠ none →
      a.reach start (2 * (rounds + 1)) ≠ a.reach start (rounds + 1) →
      ∃ answer,
        a.Races (a.reach start (rounds + 1)) (a.reach start (2 * (rounds + 1))) answer ∧
          (answer = true ↔ ∀ steps, a.reach start steps ≠ none)) :
    ∃ answer, a.Races (a.reach start rounds) (a.reach start (2 * rounds)) answer ∧
      (answer = true ↔ ∀ steps, a.reach start steps ≠ none) := by
  have hround := a.raceRound_eq start rounds
  cases hfast : a.reach start (2 * (rounds + 1)) with
  | none =>
    rw [hfast] at hround
    exact ⟨false, .ended hround, by simpa using ⟨_, hfast⟩⟩
  | some block =>
    rw [hfast] at hround hrest
    by_cases hslow : a.reach start (rounds + 1) = some block
    · rw [hslow] at hround
      refine ⟨true, .met hround, iff_of_true rfl fun steps => ?_⟩
      exact reach_ne_none_of_cycle (by simp [hslow]) (by omega) (hslow.trans hfast.symm) steps
    · obtain ⟨answer, hraces, hanswer⟩ := hrest (Option.some_ne_none block) (Ne.symm hslow)
      exact ⟨answer, .round hround hslow hraces, hanswer⟩

/-- The two-speed walk comes to an end, and tells whether the list never does. -/
theorem races_spec (a : Arena) (start : Option Block) :
    ∃ answer, a.Races start start answer ∧
      (answer = true ↔ ∀ steps, a.reach start steps ≠ none) := by
  obtain ⟨last, hlast⟩ := a.exists_finish start
  -- On what is left until the round in which the walk must end. It may end before.
  have hfrom : ∀ left rounds, rounds + left = last →
      ∃ answer, a.Races (a.reach start rounds) (a.reach start (2 * rounds)) answer ∧
        (answer = true ↔ ∀ steps, a.reach start steps ≠ none) := by
    intro left
    induction left with
    | zero =>
      rintro rounds rfl
      exact a.races_of_round start rounds fun hsome hapart =>
        absurd (hlast.resolve_left hsome) hapart
    | succ left ih =>
      intro rounds hrounds
      exact a.races_of_round start rounds fun _ _ => ih (rounds + 1) (by omega)
  exact hfrom last 0 (Nat.zero_add _)

/-- What the two-speed walk tells about the list from `start` on. `reach` follows its links, which
    lead on from a place for the smallest block, and from nowhere else. -/
structure RaceTells (a : Arena) (start : Option Block) (answer : Bool) : Prop where
  endless_eq : a.endless start = .ok answer
  races_iff : ∀ met, a.Races start start met ↔ met = answer
  reach_zero : a.reach start 0 = start
  follow_eq : ∀ steps, a.follow (a.reach start steps) = .ok (a.reach start (steps + 1))
  reach_succ_eq : ∀ steps block, a.reach start steps = some block → a.reach start (steps + 1) =
    if block.offset % 16 = 0 ∧ block.offset + 32 ≤ a.len ∧ block.offset + 32 < UInt64.size then
      a.memory.nextOf block
    else none
  never_ends_iff : answer = true ↔ ∀ steps, a.reach start steps ≠ none
  comes_back_iff : answer = true ↔ ∃ first second, first < second ∧
    a.reach start first ≠ none ∧ a.reach start first = a.reach start second

theorem reach_succ_of_some {start : Option Block} {steps : Nat} {block : Block}
    (hblock : a.reach start steps = some block) : a.reach start (steps + 1) =
      if block.offset % 16 = 0 ∧ block.offset + 32 ≤ a.len ∧ block.offset + 32 < UInt64.size then
        a.memory.nextOf block
      else none := by
  have hpos := block.offset_pos
  rw [reach_succ, hblock, Option.bind_some, after]
  refine ite_congr (propext ?_) (fun _ => rfl) fun _ => rfl
  rw [followable_iff]
  omega

/-- Whatever the words, the length and the head are, the walk comes to an end and tells whether the
    list has one. -/
theorem raceTells_of_any (a : Arena) (start : Option Block) :
    ∃ answer, a.RaceTells start answer := by
  obtain ⟨answer, hendless, hanswer⟩ := a.endless_spec start
  obtain ⟨met, hraces, hmet⟩ := a.races_spec start
  obtain rfl : met = answer := by rw [Bool.eq_iff_iff, hmet, hanswer]
  exact ⟨met, {
    endless_eq := hendless
    races_iff := fun other => ⟨fun hother => hother.unique hraces, fun heq => heq ▸ hraces⟩
    reach_zero := rfl
    follow_eq := fun steps => by rw [follow_eq, reach_succ]
    reach_succ_eq := fun _ _ => reach_succ_of_some
    never_ends_iff := hmet
    comes_back_iff := hmet.trans reach_ne_none_iff }⟩

end BoundaryTag.Arena
