import BoundaryTag.LazyHeap.Layout
import BoundaryTag.Malloc
import BoundaryTag.Proofs.Alignment.Multiples
import BoundaryTag.Proofs.Audit.Damage
import BoundaryTag.Proofs.Audit.Loops
import BoundaryTag.Proofs.FreeList.Edits
import BoundaryTag.Proofs.LazyHeap.Contract
import BoundaryTag.Proofs.Malloc.Placement
import BoundaryTag.Proofs.Pool.Retag
import BoundaryTag.Proofs.Region.Spans
import BoundaryTag.Proofs.Run.DoubleFree
import BoundaryTag.Proofs.Run.Errors
import BoundaryTag.Proofs.Run.Extension
import BoundaryTag.Proofs.Run.Lockstep
import BoundaryTag.Proofs.Run.Merge
import BoundaryTag.Proofs.Run.Neighbours
import BoundaryTag.Proofs.Run.Payload
import BoundaryTag.Proofs.Run.Placement
import BoundaryTag.Proofs.Run.Refusal
import BoundaryTag.Proofs.Run.ReleaseOrder
import BoundaryTag.Proofs.Run.Resize
import BoundaryTag.Proofs.Run.Reuse
import BoundaryTag.Proofs.Run.Safety
import BoundaryTag.Proofs.Run.Search
import BoundaryTag.Proofs.Run.Structure
import BoundaryTag.Proofs.Run.Undo
import BoundaryTag.Proofs.Run.Views
import BoundaryTag.Proofs.Run.Zeroed
import BoundaryTag.Region.Absent
import BoundaryTag.Region.Buffer
import BoundaryTag.Region.Unreliable
