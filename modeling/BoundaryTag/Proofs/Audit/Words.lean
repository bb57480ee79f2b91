import BoundaryTag.Audit.Report
import BoundaryTag.Pool.Blocks

namespace BoundaryTag

/-- What `first` answers, `second` answers too. -/
def Entails {α : Type} (first second : Except Fault α) : Prop :=
  ∀ value, first = .ok value → second = .ok value

namespace Entails

variable {α β : Type} {first second third fourth : Except Fault α}

theorem refl (first : Except Fault α) : Entails first first := fun _ => id

theorem bind (h : Entails first second) {f g : α → Except Fault β}
    (hnext : ∀ value, Entails (f value) (g value)) : Entails (first >>= f) (second >>= g) := by
  intro value hvalue
  cases hfirst : first with
  | error fault => simp [hfirst] at hvalue
  | ok middle =>
    rw [hfirst, ok_bind] at hvalue
    rw [h middle hfirst, ok_bind]
    exact hnext middle value hvalue

theorem ite {p q : Prop} [Decidable p] [Decidable q] (hiff : p ↔ q)
    (hyes : p → Entails first second) (hno : ¬ p → Entails third fourth) :
    Entails (if p then first else third) (if q then second else fourth) := by
  by_cases hp : p
  · rw [if_pos hp, if_pos (hiff.1 hp)]
    exact hyes hp
  · rw [if_neg hp, if_neg (mt hiff.2 hp)]
    exact hno hp

theorem foldlM {f g : β → α → Except Fault β} (h : ∀ before x, Entails (f before x) (g before x))
    (l : List α) (before : β) : Entails (l.foldlM f before) (l.foldlM g before) := by
  induction l generalizing before with
  | nil => exact refl _
  | cons x rest ih =>
    rw [List.foldlM_cons, List.foldlM_cons]
    exact bind (h before x) ih

end Entails

namespace Build

variable {build : Build}

theorem entails_add (hbuild : build = .checked) (other : Build) (x y : Nat) :
    Entails (build.add x y) (other.add x y) := by
  subst hbuild
  intro value hvalue
  unfold add at hvalue ⊢
  split at hvalue
  · rw [if_pos ‹_›, hvalue]
  · cases hvalue

theorem entails_sub (hbuild : build = .checked) (other : Build) (x y : Nat) :
    Entails (build.sub x y) (other.sub x y) := by
  subst hbuild
  intro value hvalue
  unfold sub at hvalue ⊢
  split at hvalue
  · rw [if_pos ‹_›, hvalue]
  · cases hvalue

end Build

theorem Block.entails_footerOffset {build : Build} (hbuild : build = .checked) (other : Build)
    (block : Block) (size : Nat) :
    Entails (block.footerOffset build size) (block.footerOffset other size) :=
  .bind (Build.entails_add hbuild _ _ _) fun _ => Build.entails_sub hbuild _ _ _

namespace Arena

/-- `other` spans what `a` does, with the same aligned words in it. What else its memory holds may
    differ, and so may the build. -/
structure Matches (a other : Arena) : Prop where
  base_eq : other.base = a.base
  len_eq : other.len = a.len
  load_eq : ∀ offset, offset % 8 = 0 → offset + 8 ≤ a.len →
    other.memory.load offset = a.memory.load offset

/-- A checked build reads none but aligned words in the arena. -/
theorem of_load_eq_ok {a : Arena} (hbuild : a.build = .checked) {offset : Nat} {word : UInt64}
    (h : a.load offset = .ok word) :
    offset % 8 = 0 ∧ offset + 8 ≤ a.len ∧ a.memory.load offset = word := by
  by_cases haligned : offset % 8 = 0
  · by_cases hinside : offset + 8 ≤ a.len
    · rw [a.load_eq_ok haligned hinside] at h
      exact ⟨haligned, hinside, Except.ok.inj h⟩
    · simp [load, checkWord, Build.require, hbuild, haligned, hinside] at h
  · simp [load, checkWord, Build.require, hbuild, haligned] at h

namespace Matches

variable {a other : Arena} (h : a.Matches other) (hbuild : a.build = .checked)

include h

theorem holds_iff (block : Block) (size : Nat) : a.Holds block size ↔ other.Holds block size := by
  rw [Holds, Holds, h.len_eq]

theorem followable_iff (block : Block) : a.Followable block ↔ other.Followable block := by
  rw [Followable, Followable, h.holds_iff]

include hbuild

theorem entails_load (offset : Nat) : Entails (a.load offset) (other.load offset) := by
  intro word hword
  obtain ⟨haligned, hinside, rfl⟩ := of_load_eq_ok hbuild hword
  rw [other.load_eq_ok haligned (h.len_eq ▸ hinside), h.load_eq offset haligned hinside]

theorem entails_tagAt (offset : Nat) : Entails (a.tagAt offset) (other.tagAt offset) :=
  .bind (h.entails_load hbuild offset) fun _ => .refl _

theorem entails_header (block : Block) : Entails (a.header block) (other.header block) :=
  .bind (Build.entails_sub hbuild _ _ _) (h.entails_tagAt hbuild)

theorem entails_successor (block : Block) :
    Entails (a.successor block) (other.successor block) :=
  .bind (h.entails_header hbuild block) fun _ => .refl _

theorem entails_link (block : Block) : Entails (a.link block) (other.link block) :=
  .bind (h.entails_load hbuild _) fun _ => .bind (Build.entails_add hbuild _ _ _) fun _ =>
    .bind (h.entails_load hbuild _) fun _ => .refl _

theorem entails_inspect (block : Block) (before : Option Block) :
    Entails (a.inspect block before) (other.inspect block before) := by
  have haddress : other.address block = a.address block := by rw [address, address, h.base_eq]
  rw [inspect, inspect, haddress]
  exact .bind (h.entails_header hbuild block) fun _ =>
    .bind (Block.entails_footerOffset hbuild _ block _) fun _ =>
      .bind (h.entails_tagAt hbuild _) fun _ => .refl _

theorem entails_inspectLast (block : Block) :
    Entails (a.inspectLast block) (other.inspectLast block) := by
  rw [inspectLast, inspectLast, h.len_eq]
  exact .bind (h.entails_header hbuild block) fun _ =>
    .bind (Build.entails_sub hbuild _ _ _) fun _ =>
      .bind (Build.entails_sub hbuild _ _ _) fun _ => .refl _

theorem entails_surveyFrom (block : Block) (before : Option Block) :
    Entails (a.surveyFrom block before) (other.surveyFrom block before) := by
  induction hroom : UInt64.size - block.offset using Nat.strongRecOn
    generalizing block before with
  | ind room ih =>
    rw [surveyFrom.eq_def a, surveyFrom.eq_def other]
    refine .ite (not_congr (h.holds_iff block 0)) (fun _ => .refl _) fun _ => ?_
    refine .bind (h.entails_header hbuild block) fun tag => ?_
    refine .ite Iff.rfl (fun _ => .bind (h.entails_inspectLast hbuild block) fun _ => .refl _)
      fun _ => ?_
    refine .ite Iff.rfl (fun _ => .refl _) fun hsize => ?_
    refine .ite (h.holds_iff block tag.size) (fun hholds => ?_) fun _ => .refl _
    refine .bind (h.entails_inspect hbuild block before) fun _ => .bind ?_ fun _ => .refl _
    have hskip := Block.offset_skip hholds.2.1
    simp only [smallestBlock] at hsize
    exact ih _ (by have := hholds.2.1; omega) _ _ rfl

theorem entails_survey : Entails a.survey other.survey := by
  rw [survey, survey]
  refine .bind (h.entails_header hbuild _) fun _ =>
    .bind (Block.entails_footerOffset hbuild _ _ _) fun _ =>
      .bind (h.entails_tagAt hbuild _) fun _ => ?_
  refine .ite Iff.rfl (fun _ => ?_) fun _ => .refl _
  exact .bind (h.entails_successor hbuild _) fun _ => h.entails_surveyFrom hbuild _ _

theorem entails_follow (cursor : Option Block) :
    Entails (a.follow cursor) (other.follow cursor) := by
  cases cursor with
  | none => exact .refl _
  | some block =>
    exact .ite (h.followable_iff block)
      (fun _ => .bind (h.entails_link hbuild block) fun _ => .refl _) fun _ => .refl _

theorem entails_race (steps : Nat) (slow fast : Option Block) :
    Entails (a.race steps slow fast) (other.race steps slow fast) := by
  induction steps generalizing slow fast with
  | zero => exact .refl _
  | succ steps ih =>
    rw [race, race]
    refine .bind (h.entails_follow hbuild _) fun _ => .bind (h.entails_follow hbuild _) fun _ =>
      .bind (h.entails_follow hbuild _) fun _ => ?_
    exact .ite Iff.rfl (fun _ => .refl _) fun _ => .ite Iff.rfl (fun _ => .refl _) fun _ => ih _ _

theorem entails_endless (start : Option Block) :
    Entails (a.endless start) (other.endless start) := by
  rw [endless, endless, listBound, listBound, h.len_eq]
  exact h.entails_race hbuild _ _ _

theorem entails_inspectListed (sizeClass : SizeClass) (prev : Option Block) (block : Block) :
    Entails (a.inspectListed sizeClass prev block) (other.inspectListed sizeClass prev block) :=
  .bind (h.entails_header hbuild block) fun _ => .bind (h.entails_link hbuild block) fun _ =>
    .refl _

theorem entails_surveyList (sizeClass : SizeClass) (steps : Nat) (prev cursor : Option Block) :
    Entails (a.surveyList sizeClass steps prev cursor)
      (other.surveyList sizeClass steps prev cursor) := by
  induction steps generalizing prev cursor with
  | zero => exact .refl _
  | succ steps ih =>
    cases cursor with
    | none => exact .refl _
    | some block =>
      rw [surveyList, surveyList]
      refine .ite (not_congr (h.followable_iff block)) (fun _ => .refl _) fun _ => ?_
      exact .bind (h.entails_inspectListed hbuild sizeClass prev block) fun _ =>
        .bind (h.entails_link hbuild block) fun _ => .bind (ih _ _) fun _ => .refl _

theorem entails_blocksFrom (block : Block) :
    Entails (a.blocksFrom block) (other.blocksFrom block) := by
  induction hroom : UInt64.size - block.offset using Nat.strongRecOn
    generalizing block with
  | ind room ih =>
    rw [blocksFrom.eq_def a, blocksFrom.eq_def other, h.len_eq]
    refine .bind (Build.entails_sub hbuild _ _ _) fun _ =>
      .bind (Build.entails_add hbuild _ _ _) fun _ => ?_
    refine .ite Iff.rfl (fun _ => .refl _) fun _ => ?_
    refine .bind (h.entails_header hbuild block) fun tag => ?_
    refine .ite Iff.rfl (fun _ => .refl _) fun _ => ?_
    refine .ite Iff.rfl (fun hnext => ?_) fun _ => .refl _
    have hlt := (block.skip tag.size).offset_lt
    exact .bind (ih _ (by omega) _ rfl) fun _ => .refl _

end Matches

end Arena

namespace Pool

variable {pool : Pool} {other : Arena} (h : pool.arena.Matches other)
  (hbuild : pool.arena.build = .checked)

include h hbuild

theorem entails_surveyClass (sizeClass : SizeClass) :
    Entails (pool.surveyClass sizeClass) (surveyClass { pool with arena := other } sizeClass) := by
  rw [surveyClass, surveyClass, Arena.listBound, Arena.listBound, h.len_eq]
  refine .bind (h.entails_endless hbuild _) fun _ => .ite Iff.rfl (fun _ => .refl _) fun _ => ?_
  exact h.entails_surveyList hbuild _ _ _ _

theorem entails_surveyLists :
    Entails pool.surveyLists (surveyLists { pool with arena := other }) :=
  .foldlM (fun _ sizeClass => .bind (entails_surveyClass h hbuild sizeClass) fun _ => .refl _) _ _

/-- What a checked build finds in an audit, any build finds over the same words. A checked build
    stops at a word that is not aligned or not in the arena, so no such word matters. -/
theorem entails_audit : Entails pool.audit (audit { pool with arena := other }) := by
  rw [audit, audit]
  refine .bind (h.entails_survey hbuild) fun _ => .ite Iff.rfl (fun _ => ?_) fun _ => .refl _
  exact .bind (entails_surveyLists h hbuild) fun _ => .refl _

/-- What a checked build yields of blocks, any build yields over the same words. -/
theorem entails_blocks : Entails pool.blocks (blocks { pool with arena := other }) :=
  .bind (h.entails_successor hbuild _) fun _ => h.entails_blocksFrom hbuild _

end Pool

end BoundaryTag
