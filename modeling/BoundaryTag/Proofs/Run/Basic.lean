import BoundaryTag.Heap.Growth
import BoundaryTag.Heap.Release
import BoundaryTag.Proofs.Region

namespace BoundaryTag

inductive Call where
  | allocate (size : Nat)
  | allocateZeroed (count size : Nat)
  | allocateAligned (align size : Nat)
  | resize (address : Option Nat) (size : Nat)
  | release (address : Option Nat)
  /-- The caller writes `f 0, …, f (count - 1)`, the first of them `start` bytes into a block. -/
  | write (address start count : Nat) (f : Nat → UInt8)

namespace Call

variable {ρ : Type}

def run [Region ρ] : Call → HeapM ρ (Option Nat)
  | allocate size => Heap.allocate size
  | allocateZeroed count size => Heap.allocateZeroed count size
  | allocateAligned align size => Heap.allocateAligned align size
  | resize address size => Heap.resize address size
  | release address => do
    Heap.release address
    return none
  | write address start count f => do
    modify fun heap => { heap with pool.arena := heap.pool.arena.fill (address + start) count f }
    return none

/-- The address that a call is about. -/
def given? : Call → Option Nat
  | resize address _ | release address => address
  | write address .. => some address
  | allocate .. | allocateZeroed .. | allocateAligned .. => none

/-- The address that is no longer in use after a call with this answer. -/
def freed? : Call → (answer : Option Nat) → Option Nat
  | resize address size, answer => if answer.isSome ∨ size = 0 then address else none
  | release address, _ => address
  | allocate .. , _ | allocateZeroed .. , _ | allocateAligned .. , _ | write .. , _ => none

/-- The addresses in use after a call. -/
def live (call : Call) (answer : Option Nat) (before : List Nat) : List Nat :=
  answer.toList ++ match call.freed? answer with
    | some address => before.erase address
    | none => before

/-- A caller writes to no bytes but those it may use. -/
def InBounds (heap : Heap ρ) : Call → Prop
  | write address start count _ =>
    ∃ usable, heap.pool.usableSize address = .ok usable ∧ start + count ≤ usable
  | allocate .. | allocateZeroed .. | allocateAligned .. | resize .. | release .. => True

instance (heap : Heap ρ) : (call : Call) → Decidable (call.InBounds heap)
  | write address start count _ =>
    match hsize : heap.pool.usableSize address with
    | .ok usable => decidable_of_iff (start + count ≤ usable) (by simp [InBounds, hsize])
    | .error _ => .isFalse (by simp [InBounds, hsize])
  | allocate .. | allocateZeroed .. | allocateAligned .. | resize .. | release .. =>
    .isTrue trivial

/-- A caller passes no addresses but those in use. -/
def Valid (heap : Heap ρ) (live : List Nat) (call : Call) : Prop :=
  (∀ address ∈ call.given?, address ∈ live) ∧ call.InBounds heap

instance (heap : Heap ρ) (live : List Nat) (call : Call) : Decidable (call.Valid heap live) :=
  inferInstanceAs (Decidable (_ ∧ _))

end Call

/-- The heaps that runs over a region lead to, with the addresses in use. A buffer ends within the
    address space, which makes a region over it addressable. What it held before is left in it. -/
inductive Reachable {ρ : Type} [Region ρ] [GrowsInPlace ρ] (build : Build) (region : ρ) :
    Heap ρ → List Nat → Prop
  | create {memory : Memory} {heap : Heap ρ} {log log' : Array Event} :
    Region.Addressable region → (Heap.create build region memory).run log = .ok (.ok heap) log' →
    Reachable build region heap []
  | call {heap after : Heap ρ} {live : List Nat} {call : Call} {answer : Option Nat}
    {log log' : Array Event} :
    Reachable build region heap live → call.Valid heap live →
    call.run.runOn heap log = .ok (answer, after) log' →
    Reachable build region after (call.live answer live)

namespace HeapM

variable {ρ α : Type} {operation : HeapM ρ α} {heap : Heap ρ} {value : α}

/-- What an operation answers, if it does not fail. -/
def answerOn (operation : HeapM ρ α) (heap : Heap ρ) : Option α :=
  match operation.runOn heap #[] with
  | .ok (value, _) _ => some value
  | .error .. => none

theorem answerOn_eq_some : operation.answerOn heap = some value ↔
    ∃ after log, operation.runOn heap #[] = .ok (value, after) log := by
  rw [answerOn]
  cases operation.runOn heap #[] <;> simp [Prod.ext_iff]

theorem exists_of_runOn_granted {request : RequestM ρ α} {answer : Option α} {after : Heap ρ}
    {log log' : Array Event}
    (hrun : request.granted.runOn heap log = .ok (answer, after) log') :
    ∃ verdict, request.runOn heap log = .ok (verdict, after) log' ∧ verdict.toOption = answer := by
  rw [RequestM.runOn_granted] at hrun
  cases hrequest : request.runOn heap log with
  | ok state log₁ =>
    rw [hrequest] at hrun
    cases hrun
    exact ⟨state.1, rfl, rfl⟩
  | error fault log₁ =>
    rw [hrequest] at hrun
    cases hrun

/-- A request whose address is known to be granted is granted. -/
theorem eq_ok_of_answerOn {request : RequestM ρ α} {answer : Except HeapError α}
    {after : Heap ρ} {log : Array Event}
    (hanswer : request.granted.answerOn heap = some (some value))
    (hrun : request.runOn heap #[] = .ok (answer, after) log) : answer = .ok value := by
  rw [answerOn, RequestM.runOn_granted, hrun] at hanswer
  cases answer with
  | error error => cases hanswer
  | ok address =>
    cases hanswer
    rfl

end HeapM

namespace RequestM

variable {ρ α : Type} {request : RequestM ρ α} {heap : Heap ρ} {value : α} {len : Nat}

/-- What a request is granted, and how long the arena is then. -/
def grantOn (request : RequestM ρ α) (heap : Heap ρ) : Option (α × Nat) :=
  match request.runOn heap #[] with
  | .ok (.ok value, after) _ => some (value, after.pool.arena.len)
  | .ok (.error _, _) _ | .error .. => none

theorem exists_of_grantOn (h : request.grantOn heap = some (value, len)) :
    ∃ after log, request.runOn heap #[] = .ok (.ok value, after) log ∧
      after.pool.arena.len = len := by
  rw [grantOn] at h
  split at h
  · rename_i after log hrun
    cases h
    exact ⟨after, log, hrun, rfl⟩
  · cases h
  · cases h

end RequestM

section Replay

variable {ρ : Type} [Region ρ] [GrowsInPlace ρ] {build : Build} {region : ρ} {memory : Memory}

/-- A call of a run, if it is valid and answers. -/
def replayCall : Heap ρ × List Nat → Call → Option (Heap ρ × List Nat)
  | (heap, live), call =>
    if call.Valid heap live then
      match call.run.runOn heap #[] with
      | .ok (answer, after) _ => some (after, call.live answer live)
      | .error .. => none
    else none

/-- The heap that a run over `memory` leads to, with the addresses in use. -/
def replay (build : Build) (region : ρ) (calls : List Call) (memory : Memory := {}) :
    Option (Heap ρ × List Nat) :=
  if Region.Addressable region then
    match (Heap.create build region memory).run #[] with
    | .ok (.ok heap) _ => calls.foldlM replayCall (heap, [])
    | _ => none
  else none

omit [GrowsInPlace ρ] in
theorem replayCall_spec {state after : Heap ρ × List Nat} {call : Call}
    (hcall : replayCall state call = some after) :
    call.Valid state.1 state.2 ∧ ∃ answer log,
      call.run.runOn state.1 #[] = .ok (answer, after.1) log ∧
        call.live answer state.2 = after.2 := by
  rw [replayCall] at hcall
  split at hcall
  · rename_i hvalid
    split at hcall
    · rename_i answer _ log hrun
      cases hcall
      exact ⟨hvalid, answer, log, hrun, rfl⟩
    · cases hcall
  · cases hcall

theorem reachable_of_replayCall {state after : Heap ρ × List Nat} {call : Call}
    (h : Reachable build region state.1 state.2) (hcall : replayCall state call = some after) :
    Reachable build region after.1 after.2 := by
  obtain ⟨hvalid, answer, log, hrun, hlive⟩ := replayCall_spec hcall
  exact hlive ▸ .call h hvalid hrun

theorem reachable_of_replay {calls : List Call} {heap : Heap ρ} {live : List Nat}
    (h : replay build region calls memory = some (heap, live)) :
    Reachable build region heap live := by
  rw [replay] at h
  split at h
  · rename_i hspace
    split at h
    · rename_i start _ hcreate
      have hstart : Reachable build region start [] := .create hspace hcreate
      clear hcreate
      generalize ([] : List Nat) = before at h hstart
      induction calls generalizing start before with
      | nil =>
        cases h
        exact hstart
      | cons call calls ih =>
        obtain ⟨⟨middle, during⟩, hcall, hrest⟩ := Option.bind_eq_some_iff.1 h
        exact ih middle during hrest (reachable_of_replayCall hstart hcall)
    · cases h
  · cases h

/-- The heap that a run leads to, from what was evaluated of it and of its addresses at once. -/
theorem exists_of_replay {α : Type} {calls : List Call} {live : List Nat} {value : α}
    {f : Heap ρ × List Nat → α}
    (h : (replay build region calls memory).map (fun state => (state.2, f state)) =
      some (live, value)) :
    ∃ heap, replay build region calls memory = some (heap, live) ∧ f (heap, live) = value := by
  obtain ⟨⟨heap, addresses⟩, hreplay, hstate⟩ := Option.map_eq_some_iff.1 h
  obtain ⟨rfl, hvalue⟩ := Prod.mk.inj hstate
  exact ⟨heap, hreplay, hvalue⟩

end Replay

/-- Heaps over a buffer of any size at any address. Growth may be refused at any request. -/
abbrev BufferHeap := Heap (UnreliableRegion BufferRegion)

def sampleBuffer : BufferRegion := { base := 65536, capacity := 16384 }

/-- A small buffer that refuses to grow a third time. -/
def sampleRegion : UnreliableRegion BufferRegion where
  inner := { base := 65536, capacity := 16384 }
  refusal request := if request = 3 then some .exhausted else none

/-- Calls of every kind. They leave three blocks in use and three free, two of these in one list. -/
def sampleCalls : List Call :=
  [.allocate 100, .allocateZeroed 5 20, .allocate 100, .allocateAligned 256 40,
    .resize (some 65568) 120, .release (some 65824), .allocate 8000,
    .write 65696 4 96 fun i => .ofNat i]

theorem replay_sampleCalls : ∃ heap, replay .checked sampleRegion sampleCalls =
    some (heap, [66112, 66048, 65696]) := by
  have hlive : (replay .checked sampleRegion sampleCalls).map Prod.snd =
      some [66112, 66048, 65696] := by
    decide +kernel
  obtain ⟨⟨heap, live⟩, hreplay, rfl⟩ := Option.map_eq_some_iff.1 hlive
  exact ⟨heap, hreplay⟩

end BoundaryTag
