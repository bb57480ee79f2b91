import BoundaryTag.Audit.Lists
import BoundaryTag.Proofs.Audit.Cycle

namespace BoundaryTag

namespace Arena

/-- What the walk asks of a block in the list of a class, after the block `prev`. -/
@[mk_iff]
structure Admits (a : Arena) (sizeClass : SizeClass) (prev : Option Block) (block : Block) :
    Prop where
  followable : a.Followable block
  free : (a.memory.headerAt block).allocated = false
  class_eq : SizeClass.ofSize (a.memory.headerAt block).size = sizeClass
  prev_eq : a.memory.prevOf block = prev

/-- The list from `cursor` on, after the block `prev`, is made of these members and ends. -/
def Chained (a : Arena) (sizeClass : SizeClass) :
    (prev cursor : Option Block) → (members : List Block) → Prop
  | _, cursor, [] => cursor = none
  | prev, cursor, block :: rest =>
    cursor = some block ∧ a.Admits sizeClass prev block ∧
      a.Chained sizeClass (some block) (a.memory.nextOf block) rest

variable {a : Arena} {sizeClass : SizeClass} {prev cursor : Option Block} {block : Block}
  {members : List Block}

theorem reach_of_followable (hblock : a.Followable block) (steps : Nat) :
    a.reach (some block) (steps + 1) = a.reach (a.memory.nextOf block) steps := by
  have hafter : (some block).bind a.after = a.memory.nextOf block := if_pos hblock
  rw [reach, Function.iterate_succ_apply, hafter]
  rfl

/-- A chain is what its links lead to. -/
theorem Chained.reach_eq (h : a.Chained sizeClass prev cursor members) (steps : Nat) :
    a.reach cursor steps = members[steps]? := by
  induction members generalizing prev cursor steps with
  | nil =>
    obtain rfl : cursor = none := h
    exact reach_none steps
  | cons block rest ih =>
    obtain ⟨rfl, hadmits, hrest⟩ := h
    cases steps with
    | zero => rfl
    | succ steps => rw [reach_of_followable hadmits.followable, ih hrest, List.getElem?_cons_succ]

theorem Chained.reach_length (h : a.Chained sizeClass prev cursor members) :
    a.reach cursor members.length = none := by
  rw [h.reach_eq, List.getElem?_eq_none (Nat.le_refl _)]

theorem Chained.exists_admits (h : a.Chained sizeClass prev cursor members)
    (hmem : block ∈ members) : ∃ before, a.Admits sizeClass before block := by
  induction members generalizing prev cursor with
  | nil => cases hmem
  | cons first rest ih =>
    obtain ⟨-, hadmits, hrest⟩ := h
    rcases List.mem_cons.1 hmem with rfl | hmem
    · exact ⟨_, hadmits⟩
    · exact ih hrest hmem

/-- A chain ends, so it does not come back to a member. -/
theorem Chained.nodup (h : a.Chained sizeClass prev cursor members) : members.Nodup := by
  refine List.nodup_iff_getElem?_ne_getElem?.2 fun i j hlt hj heq => ?_
  have hi : a.reach cursor i ≠ none := by
    rw [h.reach_eq, List.getElem?_eq_getElem (hlt.trans hj)]
    exact Option.some_ne_none _
  refine reach_ne_none_of_cycle hi hlt ?_ _ h.reach_length
  rw [h.reach_eq, h.reach_eq, heq]

theorem Chained.length_le (h : a.Chained sizeClass prev cursor members) :
    members.length ≤ a.listBound := by
  have hbound := reach_eq_none h.reach_length
  rw [h.reach_eq, List.getElem?_eq_none_iff] at hbound
  simp only [listBound, alignment]
  omega

/-- A chain is read off as far as one likes. -/
theorem Chained.listFrom_eq (h : a.Chained sizeClass prev cursor members) (limit : Nat) :
    a.listFrom limit cursor = .ok (members.take limit) := by
  induction members generalizing prev cursor limit with
  | nil =>
    obtain rfl : cursor = none := h
    cases limit <;> rfl
  | cons block rest ih =>
    obtain ⟨rfl, hadmits, hrest⟩ := h
    cases limit with
    | zero => rfl
    | succ limit =>
      rw [listFrom, hadmits.followable.link_eq, ok_bind, ih hrest, List.take_succ_cons]
      rfl

namespace WellPlaced

theorem inspectListed_spec (h : a.WellPlaced) (hblock : a.Followable block)
    (sizeClass : SizeClass) (prev : Option Block) :
    ∃ violations, a.inspectListed sizeClass prev block = .ok violations ∧
      (violations = [] ↔ a.Admits sizeClass prev block) := by
  obtain ⟨haligned, hlow, hstop⟩ := h.followable_iff.1 hblock
  rw [inspectListed, header_eq_headerAt haligned hlow (by omega), ok_bind, hblock.link_eq,
    ok_bind]
  refine ⟨_, rfl, ?_⟩
  rw [admits_iff]
  simp [hblock]

/-- The walk goes on along the forward link of a block. -/
theorem surveyList_succ (h : a.WellPlaced) (hblock : a.Followable block) (sizeClass : SizeClass)
    (steps : Nat) (prev : Option Block) :
    ∃ violations, a.surveyList sizeClass (steps + 1) prev (some block) =
        (a.surveyList sizeClass steps (some block) (a.memory.nextOf block)).map
          (ListSurvey.append { listed := 1, violations }) ∧
      (violations = [] ↔ a.Admits sizeClass prev block) := by
  obtain ⟨violations, hinspect, hclean⟩ := h.inspectListed_spec hblock sizeClass prev
  refine ⟨violations, ?_, hclean⟩
  rw [surveyList, if_neg (not_not_intro hblock), hinspect, ok_bind, hblock.link_eq, ok_bind]
  rfl

/-- A walk along a chain finds nothing wrong, and counts its members. -/
theorem surveyList_eq (h : a.WellPlaced) (hchained : a.Chained sizeClass prev cursor members)
    {steps : Nat} (hsteps : members.length ≤ steps) :
    a.surveyList sizeClass steps prev cursor = .ok { listed := members.length } := by
  induction members generalizing prev cursor steps with
  | nil =>
    obtain rfl : cursor = none := hchained
    cases steps <;> rfl
  | cons block rest ih =>
    obtain ⟨rfl, hadmits, hrest⟩ := hchained
    cases steps with
    | zero => cases hsteps
    | succ steps =>
      obtain ⟨violations, hsurvey, hclean⟩ :=
        h.surveyList_succ hadmits.followable sizeClass steps prev
      rw [hsurvey, ih hrest (Nat.le_of_succ_le_succ hsteps), hclean.2 hadmits, List.length_cons,
        Nat.add_comm]
      rfl

/-- The walk answers on any links. If it finds nothing wrong before the list ends, it was along a
    chain. -/
theorem surveyList_spec (h : a.WellPlaced) (sizeClass : SizeClass) {steps : Nat}
    (hend : a.reach cursor steps = none) (prev : Option Block) :
    ∃ found, a.surveyList sizeClass steps prev cursor = .ok found ∧
      (found.violations = [] → ∃ members, a.Chained sizeClass prev cursor members) := by
  induction steps generalizing prev cursor with
  | zero => exact ⟨_, rfl, fun _ => ⟨[], hend⟩⟩
  | succ steps ih =>
    cases cursor with
    | none => exact ⟨_, rfl, fun _ => ⟨[], rfl⟩⟩
    | some block =>
      by_cases hblock : a.Followable block
      · obtain ⟨violations, hsurvey, hclean⟩ := h.surveyList_succ hblock sizeClass steps prev
        rw [reach_of_followable hblock] at hend
        obtain ⟨found, hrest, hfound⟩ := ih hend (some block)
        rw [hrest] at hsurvey
        refine ⟨_, hsurvey, fun hnone => ?_⟩
        obtain ⟨hviolations, hnone⟩ := List.append_eq_nil_iff.1 hnone
        obtain ⟨members, hmembers⟩ := hfound hnone
        exact ⟨block :: members, rfl, hclean.1 hviolations, hmembers⟩
      · refine ⟨{ violations := [.outOfBounds block] }, ?_, fun hnone => ?_⟩
        · rw [surveyList, if_pos hblock]
          rfl
        · cases hnone

end WellPlaced

end Arena

namespace Pool

/-- The list of a class is a chain with these members. -/
def Lists (pool : Pool) (sizeClass : SizeClass) (members : List Block) : Prop :=
  pool.arena.Chained sizeClass none (pool.index.head sizeClass) members

variable {pool : Pool}

/-- The walk over the list of a class answers. It finds nothing wrong if and only if the list is a
    chain, and then it counts the members. -/
theorem surveyClass_spec (h : pool.arena.WellPlaced) (sizeClass : SizeClass) :
    ∃ found, pool.surveyClass sizeClass = .ok found ∧
      (found.violations = [] ↔ ∃ members, pool.Lists sizeClass members) ∧
      ∀ members, pool.Lists sizeClass members → found.listed = members.length := by
  obtain ⟨answer, hendless, hanswer⟩ := pool.arena.endless_spec (pool.index.head sizeClass)
  simp only [surveyClass, hendless, ok_bind]
  cases answer with
  | true =>
    have hnot : ∀ members, ¬ pool.Lists sizeClass members := fun members hmembers =>
      hanswer.1 rfl _ hmembers.reach_length
    refine ⟨_, rfl, ⟨nofun, ?_⟩, fun members hmembers => absurd hmembers (hnot members)⟩
    rintro ⟨members, hmembers⟩
    exact absurd hmembers (hnot members)
  | false =>
    obtain ⟨steps, hend⟩ : ∃ steps, pool.arena.reach (pool.index.head sizeClass) steps = none := by
      simpa using hanswer
    have hbound : pool.arena.reach (pool.index.head sizeClass) pool.arena.listBound = none :=
      Arena.reach_eq_none_of_le (Arena.reach_eq_none hend) (Nat.le_succ _)
    obtain ⟨found, hsurvey, hfound⟩ := h.surveyList_spec sizeClass hbound none
    have hcounted : ∀ members, pool.Lists sizeClass members →
        found = { listed := members.length } := fun members hmembers =>
      Except.ok.inj (hsurvey.symm.trans
        (h.surveyList_eq hmembers hmembers.length_le))
    refine ⟨found, hsurvey, ⟨hfound, ?_⟩, fun members hmembers => ?_⟩
    · rintro ⟨members, hmembers⟩
      rw [hcounted members hmembers]
    · rw [hcounted members hmembers]

/-- The findings on some classes add up. -/
theorem foldlM_surveyClass_spec (h : pool.arena.WellPlaced) (classes : List SizeClass)
    (before : ListSurvey) :
    ∃ found, classes.foldlM (fun found sizeClass => do
        return found.append (← pool.surveyClass sizeClass)) before = .ok found ∧
      (found.violations = [] ↔
        before.violations = [] ∧ ∀ c ∈ classes, ∃ members, pool.Lists c members) ∧
      ∀ chains : Chains, (∀ c ∈ classes, pool.Lists c (chains c)) →
        found.listed = before.listed + (classes.flatMap chains).length := by
  induction classes generalizing before with
  | nil => exact ⟨before, rfl, by simp, fun _ _ => rfl⟩
  | cons first rest ih =>
    obtain ⟨middle, hsurvey, hmiddle, hcounted⟩ := surveyClass_spec h first
    obtain ⟨found, hrest, hfound, hsummed⟩ := ih (before.append middle)
    refine ⟨found, ?_, ?_, fun chains hchains => ?_⟩
    · rw [List.foldlM_cons, hsurvey]
      exact hrest
    · simp only [hfound, ListSurvey.append, List.append_eq_nil_iff, hmiddle, List.forall_mem_cons,
        and_assoc]
    · obtain ⟨hfirst, hchains⟩ := List.forall_mem_cons.1 hchains
      rw [hsummed chains hchains, List.flatMap_cons, List.length_append, ListSurvey.append,
        hcounted _ hfirst, Nat.add_assoc]

/-- The walk over the lists answers on any heads and links. It finds nothing wrong if and only if
    each list is a chain, and then it counts all their members. -/
theorem surveyLists_spec (h : pool.arena.WellPlaced) :
    ∃ found, pool.surveyLists = .ok found ∧
      (found.violations = [] ↔ ∃ chains : Chains, ∀ c, pool.Lists c (chains c)) ∧
      ∀ chains : Chains, (∀ c, pool.Lists c (chains c)) →
        found.listed = chains.members.length := by
  obtain ⟨found, hsurvey, hfound, hcounted⟩ :=
    foldlM_surveyClass_spec h (List.finRange classCount) {}
  refine ⟨found, hsurvey, ?_, fun chains hchains => ?_⟩
  · rw [hfound, ← Classical.skolem]
    exact ⟨fun ⟨_, hall⟩ c => hall c (List.mem_finRange c), fun hall => ⟨rfl, fun c _ => hall c⟩⟩
  · rw [hcounted chains fun c _ => hchains c, Chains.members, Nat.zero_add]

/-- The walk over chains finds nothing wrong, and counts their members. -/
theorem surveyLists_of_lists (h : pool.arena.WellPlaced) {chains : Chains}
    (hlists : ∀ c, pool.Lists c (chains c)) :
    pool.surveyLists = .ok { listed := chains.members.length } := by
  obtain ⟨⟨listed, violations⟩, hsurvey, hclean, hcounted⟩ := pool.surveyLists_spec h
  obtain rfl : listed = chains.members.length := hcounted chains hlists
  obtain rfl : violations = [] := hclean.2 ⟨chains, hlists⟩
  exact hsurvey

end Pool

end BoundaryTag
