import BoundaryTag.LazyHeap.Basic
import BoundaryTag.Proofs.Run.Session

namespace BoundaryTag

/-- How work ends: with a value and what the heap has become, or with a fault. -/
def LazyHeapM.runOn {α : Type} (work : LazyHeapM α) (state : LazyHeap) (log : Array Event) :
    EStateM.Result Fault (Array Event) (α × LazyHeap) :=
  (work.run state).run log

namespace LazyHeapM

variable {α β : Type} (state : LazyHeap) (log : Array Event)

@[simp] theorem runOn_bind (work : LazyHeapM α) (next : α → LazyHeapM β) :
    (work >>= next).runOn state log =
      match work.runOn state log with
      | .ok (value, state) log => (next value).runOn state log
      | .error fault log => .error fault log := by
  simp only [runOn, StateT.run, EStateM.run, bind, StateT.bind, EStateM.bind]
  cases work state log <;> rfl

@[simp] theorem runOn_pure (value : α) :
    (pure value : LazyHeapM α).runOn state log = .ok (value, state) log := rfl

@[simp] theorem runOn_map (f : α → β) (work : LazyHeapM α) :
    (f <$> work).runOn state log =
      match work.runOn state log with
      | .ok (value, state) log => .ok (f value, state) log
      | .error fault log => .error fault log := by
  simp only [← bind_pure_comp, runOn_bind, runOn_pure]

@[simp] theorem runOn_discard (work : LazyHeapM α) :
    (discard work).runOn state log =
      match work.runOn state log with
      | .ok (_, state) log => .ok (⟨⟩, state) log
      | .error fault log => .error fault log := by
  rw [Functor.discard, map_const, Function.comp_apply, runOn_map]

@[simp] theorem runOn_get :
    (get : LazyHeapM LazyHeap).runOn state log = .ok (state, state) log := rfl

@[simp] theorem runOn_set (after : LazyHeap) :
    (set after : LazyHeapM PUnit).runOn state log = .ok (⟨⟩, after) log := rfl

@[simp] theorem runOn_liftM (work : Trace α) :
    (liftM work : LazyHeapM α).runOn state log =
      match work.run log with
      | .ok value log => .ok (value, state) log
      | .error fault log => .error fault log := by
  change EStateM.bind work _ log = _
  simp only [EStateM.bind, EStateM.run]
  cases work log <;> rfl

/-- What work answers, if it does not fail. -/
def answerOn (work : LazyHeapM α) (state : LazyHeap) (log : Array Event) : Option α :=
  match work.runOn state log with
  | .ok (value, _) _ => some value
  | .error .. => none

variable {state log} {work : LazyHeapM α} {after : LazyHeap} {log' : Array Event} {value : α}

theorem answerOn_of_runOn (hrun : work.runOn state log = .ok (value, after) log') :
    work.answerOn state log = some value := by
  rw [answerOn, hrun]

theorem exists_of_answerOn (h : work.answerOn state log = some value) :
    ∃ after log', work.runOn state log = .ok (value, after) log' := by
  rw [answerOn] at h
  split at h
  · cases h
    exact ⟨_, _, ‹_›⟩
  · cases h

theorem answerOn_bind (hrun : work.runOn state log = .ok (value, after) log')
    (next : α → LazyHeapM β) :
    (work >>= next).answerOn state log = (next value).answerOn after log' := by
  simp only [answerOn, runOn_bind, hrun]

end LazyHeapM

namespace LazyHeap

variable {α : Type} {state : LazyHeap} {heap after : Heap ReservedRegion} {log log' : Array Event}
  {value : α}

/-- The state with a heap in it. -/
def holding (state : LazyHeap) (heap : Heap ReservedRegion) : LazyHeap :=
  { state with heap := some heap }

@[simp] theorem heap_holding (state : LazyHeap) (heap : Heap ReservedRegion) :
    (state.holding heap).heap = some heap := rfl

theorem runOn_onExisting_of_none (hstate : state.heap = none)
    (work : HeapM ReservedRegion α) (log : Array Event) :
    (onExisting work).runOn state log = .ok (none, state) log := by
  simp only [onExisting, LazyHeapM.runOn_bind, LazyHeapM.runOn_get, hstate, LazyHeapM.runOn_pure]

theorem runOn_onExisting {work : HeapM ReservedRegion α}
    (hrun : work.runOn heap log = .ok (value, after) log') (state : LazyHeap) :
    (onExisting work).runOn (state.holding heap) log =
      .ok (some value, state.holding after) log' := by
  have hwork : (work.run heap).run log = .ok (value, after) log' := hrun
  simp only [onExisting, LazyHeapM.runOn_bind, LazyHeapM.runOn_get, heap_holding,
    LazyHeapM.runOn_liftM, hwork, LazyHeapM.runOn_set, LazyHeapM.runOn_pure]
  rfl

/-- A heap that is there is not built again. -/
theorem runOn_onBuilt_holding (work : HeapM ReservedRegion α) (state : LazyHeap)
    (heap : Heap ReservedRegion) (log : Array Event) :
    (onBuilt work).runOn (state.holding heap) log =
      (onExisting work).runOn (state.holding heap) log := by
  simp only [onBuilt, LazyHeapM.runOn_bind, LazyHeapM.runOn_get, heap_holding, Option.isNone_some]
  rfl

theorem runOn_onBuilt_of_none (hstate : state.heap = none)
    (hbuild : state.construct.run log = .ok (some heap) log') (work : HeapM ReservedRegion α) :
    (onBuilt work).runOn state log = (onExisting work).runOn (state.holding heap) log' := by
  simp only [onBuilt, LazyHeapM.runOn_bind, LazyHeapM.runOn_get, hstate, Option.isNone_none,
    if_true, LazyHeapM.runOn_liftM, hbuild, LazyHeapM.runOn_set]
  rfl

/-- Where no heap can be built, there is none to work on. -/
theorem runOn_onBuilt_of_refused (hstate : state.heap = none)
    (hbuild : state.construct.run log = .ok none log') (work : HeapM ReservedRegion α) :
    (onBuilt work).runOn state log = .ok (none, state) log' := by
  have hsame : { state with heap := none } = state := by rw [← hstate]
  simp only [onBuilt, LazyHeapM.runOn_bind, LazyHeapM.runOn_get, hstate, Option.isNone_none,
    if_true, LazyHeapM.runOn_liftM, hbuild, LazyHeapM.runOn_set, hsame]
  exact runOn_onExisting_of_none hstate work log'

/-- The system grants the reservation, and puts it at a multiple of 16 within the address space. -/
structure Backed (state : LazyHeap) (region : ReservedRegion) : Prop where
  reserve_eq : ReservedRegion.reserve state.base reservation state.pageSize addressSpace
    state.permits = .ok region
  base_mod : state.base % 16 = 0
  addressable : Region.Addressable region

/-- The system lets the heap use whatever pages it needs. -/
def Obliging (state : LazyHeap) : Prop := ∀ start stop, state.permits start stop = true

theorem Backed.run_construct {region : ReservedRegion} (h : state.Backed region)
    (log : Array Event) :
    state.construct.run log =
      match (Heap.create state.build region).run log with
      | .ok (.ok heap) log' => .ok (some heap) log'
      | .ok (.error error) log' => .ok none (log'.push (.bootstrapFailed error))
      | .error fault log' => .error fault log' := by
  rw [construct, h.reserve_eq]
  change EStateM.bind (Heap.create state.build region) _ log = _
  simp only [EStateM.bind, EStateM.run]
  cases Heap.create state.build region {} log with
  | ok answer log' => cases answer <;> rfl
  | error fault log' => rfl

/-- A heap that is built over a reservation has nothing in use. The system may not let it be
    built. -/
theorem Backed.construct_spec {region : ReservedRegion} (h : state.Backed region)
    (log : Array Event) :
    ∃ built log', state.construct.run log = .ok built log' ∧
      ∀ heap, built = some heap → ∃ blocks chains, heap.Owns [] blocks chains := by
  obtain ⟨answer, log', hcreate, -⟩ := Heap.create_spec state.build h.addressable {} log
  have hrun := h.run_construct log
  rw [hcreate] at hrun
  cases answer with
  | error error => exact ⟨none, _, hrun, nofun⟩
  | ok heap =>
    refine ⟨some heap, log', hrun, ?_⟩
    rintro _ ⟨⟩
    exact (Reachable.create h.addressable hcreate).owns

/-- Where the system lets the heap use its pages, the heap can be built. -/
theorem Backed.exists_construct {region : ReservedRegion} (h : state.Backed region)
    (hobliging : state.Obliging) (log : Array Event) :
    ∃ heap log', (Heap.create state.build region).run log = .ok (.ok heap) log' ∧
      state.construct.run log = .ok (some heap) log' ∧
      ∃ blocks chains, heap.Owns [] blocks chains := by
  obtain ⟨hbase, -, -, hlen, hreserved, hpermits⟩ := ReservedRegion.reserve_spec h.reserve_eq
  have hmod : Region.base region % 16 = 0 := (congrArg (· % 16) hbase).trans h.base_mod
  have hroom : frontBytes + growthUnit ≤ GrowsInPlace.capacity region :=
    Nat.le_trans (by decide) hreserved
  have hregion : GrowsByLength.Obliging region := fun start stop =>
    (congrFun (congrFun hpermits start) stop).trans (hobliging start stop)
  obtain ⟨heap, log', hcreate⟩ :=
    Heap.exists_create state.build hlen hmod h.addressable hregion hroom {} log
  have hrun := h.run_construct log
  rw [hcreate] at hrun
  exact ⟨heap, log', hcreate, hrun, (Reachable.create h.addressable hcreate).owns⟩

end LazyHeap

end BoundaryTag
