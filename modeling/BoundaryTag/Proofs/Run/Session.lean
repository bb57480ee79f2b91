import BoundaryTag.Proofs.Run.Step
import BoundaryTag.Proofs.Run.Views

namespace BoundaryTag

open Heap

theorem HeapM.runOn_bind_eq_ok {ρ α β : Type} {operation : HeapM ρ α} {next : α → HeapM ρ β}
    {heap after : Heap ρ} {log log' : Array Event} {answer : β} :
    (operation >>= next).runOn heap log = .ok (answer, after) log' ↔
      ∃ value middle during, operation.runOn heap log = .ok (value, middle) during ∧
        (next value).runOn middle during = .ok (answer, after) log' := by
  rw [HeapM.runOn_bind]
  cases operation.runOn heap log <;> grind

theorem HeapM.runOn_map_eq_ok {ρ α β : Type} {f : α → β} {operation : HeapM ρ α}
    {heap after : Heap ρ} {log log' : Array Event} {answer : β} :
    (f <$> operation).runOn heap log = .ok (answer, after) log' ↔
      ∃ value, operation.runOn heap log = .ok (value, after) log' ∧ f value = answer := by
  rw [HeapM.runOn_map]
  cases operation.runOn heap log <;> grind

inductive Use where
  | call (call : Call)
  | usableSize (address : Nat)
  | contains (address : Nat)
  | audit
  | stats

/-- What a use is answered. There is no report and there are no figures of a heap that is not
    there. -/
inductive Answer where
  | address (address : Option Nat)
  | size (bytes : Nat)
  | contained (inside : Bool)
  | audited (report : Option Report)
  | counted (stats : Option Stats)

namespace Use

variable {ρ : Type}

def run [Region ρ] : Use → HeapM ρ Answer
  | call made => .address <$> made.run
  | usableSize address => .size <$> Heap.usableSize address
  | contains address => .contained <$> Heap.contains address
  | audit => (.audited ∘ some) <$> Heap.audit
  | stats => (.counted ∘ some) <$> Heap.stats

/-- Only calls change which addresses are in use. -/
def live : Use → Answer → List Nat → List Nat
  | call made, .address answer, before => made.live answer before
  | _, _, before => before

/-- A program names no addresses but those in use. Whether the heap contains an address may be asked
    of any. -/
def Valid (heap : Heap ρ) (live : List Nat) : Use → Prop
  | call made => made.Valid heap live
  | usableSize address => address ∈ live
  | contains _ | audit | stats => True

instance (heap : Heap ρ) (live : List Nat) : (use : Use) → Decidable (use.Valid heap live)
  | call made => inferInstanceAs (Decidable (made.Valid heap live))
  | usableSize address => inferInstanceAs (Decidable (address ∈ live))
  | contains _ | audit | stats => .isTrue trivial

end Use

namespace Heap

variable {ρ : Type} [Region ρ]

/-- Uses are valid, each of them where those before it lead. -/
def Accepts : Heap ρ → List Nat → Array Event → List Use → Prop
  | _, _, _, [] => True
  | heap, live, log, use :: uses =>
    use.Valid heap live ∧ ∀ answer after log',
      use.run.runOn heap log = .ok (answer, after) log' →
      Accepts after (use.live answer live) log' uses

instance decidableAccepts : (heap : Heap ρ) → (live : List Nat) → (log : Array Event) →
    (uses : List Use) → Decidable (heap.Accepts live log uses)
  | _, _, _, [] => .isTrue trivial
  | heap, live, log, use :: uses =>
    have : Decidable (∀ answer after log', use.run.runOn heap log = .ok (answer, after) log' →
        after.Accepts (use.live answer live) log' uses) :=
      match use.run.runOn heap log with
      | .ok (answer, after) log' =>
        have := decidableAccepts after (use.live answer live) log' uses
        decidable_of_iff (after.Accepts (use.live answer live) log' uses) (by simp)
      | .error .. => .isTrue (by simp)
    inferInstanceAs (Decidable (_ ∧ _))

/-- Whether a heap is created over a region and accepts some uses. -/
def acceptsFrom (build : Build) (region : ρ) (uses : List Use) : Bool :=
  match (create build region).run #[] with
  | .ok (.ok heap) log => decide (heap.Accepts [] log uses)
  | _ => false

theorem accepts_of_acceptsFrom {build : Build} {region : ρ} {uses : List Use}
    (h : acceptsFrom build region uses = true) : ∃ heap log,
    (create build region).run #[] = .ok (.ok heap) log ∧ heap.Accepts [] log uses := by
  rw [acceptsFrom] at h
  split at h
  · exact ⟨_, _, ‹_›, of_decide_eq_true h⟩
  · cases h

variable [GrowsInPlace ρ] {heap : Heap ρ} {live : List Nat} {blocks : List BlockInfo}
  {chains : Chains} {use : Use}

/-- A question is answered, and neither the heap nor the log tells that it was asked. -/
theorem Owns.question_spec (h : heap.Owns live blocks chains) (hvalid : use.Valid heap live)
    (hquestion : ∀ call, use ≠ .call call) :
    ∃ answer, (∀ log, use.run.runOn heap log = .ok (answer, heap) log) ∧
      use.live answer live = live := by
  cases use with
  | call call => exact absurd rfl (hquestion call)
  | usableSize address =>
    obtain ⟨info, hinfo, rfl⟩ := h.exists_held hvalid
    refine ⟨.size (info.size - 16), fun log => ?_, rfl⟩
    simp only [Use.run, Heap.usableSize, HeapM.runOn_map, HeapM.runOn_bind, HeapM.runOn_get,
      HeapM.runOn_liftM, h.sound.usableSize_eq (mem_held.1 hinfo).1]
  | contains address =>
    refine ⟨.contained (Region.contains heap.region address), fun log => ?_, rfl⟩
    simp only [Use.run, Heap.contains, HeapM.runOn_map, HeapM.runOn_bind, HeapM.runOn_get,
      HeapM.runOn_pure]
  | audit =>
    obtain ⟨stats, report, haccounts⟩ := h.accounts
    refine ⟨.audited (some report), fun log => ?_, rfl⟩
    simp only [Use.run, HeapM.runOn_map, haccounts.audit_eq, Function.comp]
  | stats =>
    obtain ⟨stats, report, haccounts⟩ := h.accounts
    refine ⟨.counted (some stats), fun log => ?_, rfl⟩
    simp only [Use.run, HeapM.runOn_map, haccounts.stats_eq, Function.comp]

/-- A valid use is answered. -/
theorem Owns.use_spec (h : heap.Owns live blocks chains) (hvalid : use.Valid heap live)
    (log : Array Event) :
    ∃ answer after log', use.run.runOn heap log = .ok (answer, after) log' ∧
      ∃ blocks chains, after.Owns (use.live answer live) blocks chains := by
  by_cases hcall : ∃ call, use = .call call
  · obtain ⟨call, rfl⟩ := hcall
    obtain ⟨answer, after, log', hrun, kept, ⟨infos, links, hafter, -⟩, -⟩ :=
      h.call_spec hvalid log
    refine ⟨.address answer, after, log', ?_, infos, links, hafter⟩
    simp only [Use.run, HeapM.runOn_map, hrun]
  · obtain ⟨answer, hrun, hlive⟩ := h.question_spec hvalid fun call heq => hcall ⟨call, heq⟩
    refine ⟨answer, heap, log, hrun log, blocks, chains, ?_⟩
    rw [hlive]
    exact h

end Heap

end BoundaryTag
