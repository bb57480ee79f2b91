import BoundaryTag.Heap.Event
import BoundaryTag.Pool.Basic
import BoundaryTag.Region.Basic

namespace BoundaryTag

/-- Work that logs events and may fault. -/
abbrev Trace := EStateM Fault (Array Event)

instance : MonadLift (Except Fault) Trace where
  monadLift
    | .ok value => pure value
    | .error fault => throw fault

def record (event : Event) : Trace Unit := modify (·.push event)

/-- A pool over a region. -/
structure Heap (ρ : Type) where
  region : ρ
  pool : Pool

/-- Work that reads and replaces a heap. A fault keeps the log and ends the work on the heap. -/
abbrev HeapM (ρ : Type) := StateT (Heap ρ) Trace

/-- Work that may also be refused, which leaves a heap to go on with. -/
abbrev RequestM (ρ : Type) := ExceptT HeapError (HeapM ρ)

/-- What a request is granted, if it is not refused. -/
def RequestM.granted {ρ α : Type} (request : RequestM ρ α) : HeapM ρ (Option α) := do
  return (← request.run).toOption

/-- How an operation ends: with a value and a heap, or with a fault. -/
def HeapM.runOn {ρ α : Type} (operation : HeapM ρ α) (heap : Heap ρ) (log : Array Event) :
    EStateM.Result Fault (Array Event) (α × Heap ρ) :=
  (operation.run heap).run log

/-- How a request ends: granted or refused, each with a heap, or with a fault. -/
def RequestM.runOn {ρ α : Type} (request : RequestM ρ α) (heap : Heap ρ) (log : Array Event) :
    EStateM.Result Fault (Array Event) (Except HeapError α × Heap ρ) :=
  HeapM.runOn request.run heap log

namespace HeapM

variable {ρ α β : Type} (heap : Heap ρ) (log : Array Event)

@[simp] theorem runOn_bind (operation : HeapM ρ α) (next : α → HeapM ρ β) :
    (operation >>= next).runOn heap log =
      match operation.runOn heap log with
      | .ok (value, heap) log => (next value).runOn heap log
      | .error fault log => .error fault log := by
  simp only [runOn, StateT.run, EStateM.run, bind, StateT.bind, EStateM.bind]
  cases operation heap log <;> rfl

@[simp] theorem runOn_pure (value : α) :
    (pure value : HeapM ρ α).runOn heap log = .ok (value, heap) log := rfl

@[simp] theorem runOn_map (f : α → β) (operation : HeapM ρ α) :
    (f <$> operation).runOn heap log =
      match operation.runOn heap log with
      | .ok (value, heap) log => .ok (f value, heap) log
      | .error fault log => .error fault log := by
  simp only [← bind_pure_comp, runOn_bind, runOn_pure]

@[simp] theorem runOn_get :
    (get : HeapM ρ (Heap ρ)).runOn heap log = .ok (heap, heap) log := rfl

@[simp] theorem runOn_set (after : Heap ρ) :
    (set after : HeapM ρ PUnit).runOn heap log = .ok (⟨⟩, after) log := rfl

@[simp] theorem runOn_modify (f : Heap ρ → Heap ρ) :
    (modify f : HeapM ρ PUnit).runOn heap log = .ok (⟨⟩, f heap) log := rfl

@[simp] theorem runOn_record (event : Event) :
    (liftM (record event) : HeapM ρ Unit).runOn heap log = .ok ((), heap) (log.push event) := rfl

@[simp] theorem runOn_liftM (value : Except Fault α) :
    (liftM value : HeapM ρ α).runOn heap log =
      match value with
      | .ok value => .ok (value, heap) log
      | .error fault => .error fault log := by
  cases value <;> rfl

end HeapM

namespace RequestM

variable {ρ α β : Type} (heap : Heap ρ) (log : Array Event)

@[simp] theorem runOn_bind (request : RequestM ρ α) (next : α → RequestM ρ β) :
    (request >>= next).runOn heap log =
      match request.runOn heap log with
      | .ok (.ok value, heap) log => (next value).runOn heap log
      | .ok (.error error, heap) log => .ok (.error error, heap) log
      | .error fault log => .error fault log := by
  simp only [runOn, HeapM.runOn, ExceptT.run, StateT.run, EStateM.run, bind, ExceptT.bind,
    ExceptT.mk, StateT.bind, EStateM.bind]
  cases request heap log with
  | ok answer log => rcases answer with ⟨_ | _, _⟩ <;> rfl
  | error => rfl

@[simp] theorem runOn_pure (value : α) :
    (pure value : RequestM ρ α).runOn heap log = .ok (.ok value, heap) log := rfl

@[simp] theorem runOn_map (f : α → β) (request : RequestM ρ α) :
    (f <$> request).runOn heap log =
      match request.runOn heap log with
      | .ok (answer, heap) log => .ok (answer.map f, heap) log
      | .error fault log => .error fault log := by
  simp only [← bind_pure_comp, runOn_bind, runOn_pure]
  cases request.runOn heap log with
  | ok answer log => rcases answer with ⟨_ | _, _⟩ <;> rfl
  | error => rfl

@[simp] theorem runOn_get :
    (get : RequestM ρ (Heap ρ)).runOn heap log = .ok (.ok heap, heap) log := rfl

@[simp] theorem runOn_set (after : Heap ρ) :
    (set after : RequestM ρ PUnit).runOn heap log = .ok (.ok ⟨⟩, after) log := rfl

@[simp] theorem runOn_modify (f : Heap ρ → Heap ρ) :
    (modify f : RequestM ρ PUnit).runOn heap log = .ok (.ok ⟨⟩, f heap) log := rfl

@[simp] theorem runOn_throw (error : HeapError) :
    (throw error : RequestM ρ α).runOn heap log = .ok (.error error, heap) log := rfl

/-- The handler of a refusal goes on with the heap that the refused request left. -/
@[simp] theorem runOn_tryCatch (request : RequestM ρ α) (handler : HeapError → RequestM ρ α) :
    (tryCatch request handler).runOn heap log =
      match request.runOn heap log with
      | .ok (.ok value, heap) log => .ok (.ok value, heap) log
      | .ok (.error error, heap) log => (handler error).runOn heap log
      | .error fault log => .error fault log := by
  simp only [runOn, HeapM.runOn, ExceptT.run, StateT.run, EStateM.run, tryCatch, tryCatchThe,
    MonadExceptOf.tryCatch, ExceptT.tryCatch, ExceptT.mk, bind, StateT.bind, EStateM.bind]
  cases request heap log with
  | ok answer log => rcases answer with ⟨_ | _, _⟩ <;> rfl
  | error => rfl

@[simp] theorem runOn_record (event : Event) :
    (liftM (record event) : RequestM ρ Unit).runOn heap log =
      .ok (.ok (), heap) (log.push event) := rfl

@[simp] theorem runOn_liftM_refusal (value : Except HeapError α) :
    (liftM value : RequestM ρ α).runOn heap log = .ok (value, heap) log := rfl

@[simp] theorem runOn_liftM (value : Except Fault α) :
    (liftM value : RequestM ρ α).runOn heap log =
      match value with
      | .ok value => .ok (.ok value, heap) log
      | .error fault => .error fault log := by
  cases value <;> rfl

theorem runOn_granted (request : RequestM ρ α) :
    request.granted.runOn heap log =
      match request.runOn heap log with
      | .ok (answer, heap) log => .ok (answer.toOption, heap) log
      | .error fault log => .error fault log := by
  simp only [granted, RequestM.runOn, bind_pure_comp, HeapM.runOn_map]
  cases HeapM.runOn request.run heap log <;> rfl

end RequestM

end BoundaryTag
