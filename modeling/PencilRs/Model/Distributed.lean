import PencilRs.Model.RegionWalk

/-!
# What all ranks hold together

The transports are called on every rank of a topology in the same order.  A distributed
pencil is the family of pencils the ranks hold after such a call: equal configuration,
each rank's own coordinates.  Distributed views and plans are families over it.  The
constructors make the ranks compare their configurations before anything else
(`collective_descriptor`), so nothing else reaches the code below.
-/

set_option autoImplicit false

namespace PencilRs.Model

variable {N M : ℕ}

structure DistributedPencil (topology : MpiTopology M) (N : ℕ) where
  on : Coords topology.processGrid → Pencil N M
  topology_eq : ∀ c, (on c).topology = topology.atCoords c
  globalShape_eq : ∀ c d, (on c).globalShape = (on d).globalShape
  decomposition_eq : ∀ c d, (on c).decomposition = (on d).decomposition
  permutation_eq : ∀ c d, (on c).permutation = (on d).permutation

/-- The views of one extra shape that the ranks hold over a distributed pencil. -/
structure DistributedView {topology : MpiTopology M} (pencil : DistributedPencil topology N)
    (extraShape : ExtraShape) (α : Type) where
  on : Coords topology.processGrid → PencilArrayView α N M
  pencil_eq : ∀ c, (on c).pencil = pencil.on c
  extraShape_eq : ∀ c, (on c).extraShape = extraShape

/-- The plans the ranks hold after the constructor accepted the layouts on every rank. -/
structure DistributedPlan (topology : MpiTopology M) (N : ℕ) (mode : CommunicationMode) where
  source : DistributedPencil topology N
  destination : DistributedPencil topology N
  on : Coords topology.processGrid → TransposePlanCore N M
  source_eq : ∀ c, (on c).source = source.on c
  destination_eq : ∀ c, (on c).destination = destination.on c
  mode_eq : ∀ c, (on c).mode = mode

end PencilRs.Model
