import PencilRs.Computation.Channels
import PencilRs.Computation.Combine
import PencilRs.Computation.MixedRadix
import PencilRs.Model.Descriptor

/-!
# Checked sums over all ranks

A collective operation on views compares a descriptor of the layout, the element types and the
operation, and then combines one value per rank.  Integer sums are checked at every addition,
first on each rank in storage order and then over the ranks in rank order.

SOURCE: pencil-array/src/collectives.rs
-/

set_option autoImplicit false

namespace PencilRs.Model

open PencilRs.Computation RankProgram

variable {N M : ℕ} {α β : Type}

/-! ## The Cartesian communicator -/

namespace MpiTopology

variable (topology : MpiTopology M)

/-- SOURCE: topology.rs:155-157 -/
def size : ℕ := ∏ axis, topology.processGrid axis

/-- The coordinates MPI gives to a rank number. -/
def coordsAt (rank : ℕ) : Coords topology.processGrid := fun axis =>
  ⟨MixedRadix.digit topology.processGrid (List.finRange M).reverse rank axis,
    MixedRadix.digit_lt rank (fun axis _ => topology.extents_pos axis) axis
      (List.mem_reverse.mpr (List.mem_finRange axis))⟩

end MpiTopology

/-- `all_gather_into` of one value a rank, and blocking messages between the ranks of the
communicator. -/
inductive GatherOp where
  | allGather
  | messages
deriving Repr, DecidableEq

abbrev gathering (α : Type) : Interface where
  Op := GatherOp
  Arg
    | .allGather => α
    | .messages => List (ChannelAction ℕ α)
  Reply
    | .allGather => List α
    | .messages => List (List α)

/-- What the ranks do, by rank number. -/
def byRank (topology : MpiTopology M)
    (actions : Coords topology.processGrid → List (ChannelAction ℕ α)) :
    ℕ → List (ChannelAction ℕ α) :=
  fun rank => if rank < topology.size then actions (topology.coordsAt rank) else []

/-- Values are gathered in rank order.  Messages that may leave a rank waiting hang. -/
def gatherings (α : Type) (topology : MpiTopology M) :
    Semantics (gathering α) (Coords topology.processGrid) Unit where
  Round := fun _ op args replies _ =>
    match op with
    | .allGather => ∀ c, replies c
        = (List.range topology.size).map fun rank => args (topology.coordsAt rank)
    | .messages => Channels.NeverStalls (byRank topology args) ∧
        ∃ final, Channels.Reaches (Channels.start (byRank topology args)) final ∧
          final.Done ∧
          ∀ c, replies c = final.received
            (MpiTopology.cartesianRank topology.processGrid fun axis => c axis)
  Torn := fun _ _ _ _ => False

/-- Reductions and gatherings on the Cartesian communicator. -/
def cartesian (α : Type) (topology : MpiTopology M) :
    Semantics ((transport Unit M).beside (gathering α)) (Coords topology.processGrid) Unit :=
  (communicators Unit topology.processGrid).beside (gatherings α topology)

abbrev CollectiveProgram (α : Type) (M : ℕ) (β : Type) : Type :=
  Fallible ((transport Unit M).beside (gathering α)) (Stop CollectiveError) β

/-- A part of the program that only reduces. -/
def reducing (p : RankProgram Unit M CollectiveError β) : CollectiveProgram α M β :=
  Fallible.inl id p

/-! ## Layout descriptors -/

/-- A Rust type as a descriptor sees it; the name is in UTF-8. -/
structure TypeInfo where
  size : ℕ
  align : ℕ
  name : List (BitVec 8)
deriving Repr, DecidableEq

/-- What the allocator of this rank grants. -/
structure CollectiveAllocator where
  descriptor : Bool
  minimum : Bool
  maximum : Bool
  partials : Bool
  slots : Bool
  blocks : Bool
  global : Bool
  scratch : Bool
deriving Repr, DecidableEq

/-- SOURCE: collectives.rs:40 -/
def descriptorSchema : BitVec 64 := 3

/-- SOURCE: collectives.rs:41 -/
def operationNamespace : ℕ := 0x41520000

/-- SOURCE: collectives.rs:42 -/
def opGlobalSum : ℕ := operationNamespace + 1

/-- SOURCE: collectives.rs:57 -/
def opSumBy : ℕ := operationNamespace + 9

/-- SOURCE: collectives.rs:59 -/
def opGather : ℕ := operationNamespace + 11

section Descriptor

variable (pencil : Pencil N M) (extraShape : ExtraShape) (T U : TypeInfo)
  (callbackName : List (BitVec 8))

/-- SOURCE: collectives.rs:2267-2290 -/
def descriptorLen : Option ℕ := do
  let length ← [4, N, M, N, 1 + extraShape.dimensions.length, M, 1, 4, 1 + T.name.length,
    1 + U.name.length, 1 + callbackName.length].foldlM checkedAdd 0
  checkedMul length 2

/-- The low half first.

SOURCE: collectives.rs:2341-2344 -/
def appendWord (value : ℕ) : List (BitVec 32) :=
  [BitVec.ofNat 32 value, BitVec.ofNat 32 (value >>> 32)]

/-- SOURCE: collectives.rs:2346-2351 -/
def appendUsizes (values : List ℕ) : List (BitVec 32) := values.flatMap appendWord

/-- SOURCE: collectives.rs:2353-2359 -/
def appendTypeName (name : List (BitVec 8)) : List (BitVec 32) :=
  appendWord name.length ++ name.flatMap fun byte => appendWord byte.toNat

/-- The words `build_descriptor` appends. -/
def layoutWords (operation rootWord : ℕ) : List (BitVec 32) :=
  appendWord descriptorSchema.toNat ++ appendWord operation ++ appendWord N ++ appendWord M
    ++ appendUsizes (List.ofFn pencil.globalShape)
    ++ (List.finRange M).flatMap (fun axis => appendWord (pencil.decomposition.axes axis).val)
    ++ (List.finRange N).flatMap (fun position =>
      appendWord (pencil.permutation.axesInMemoryOrder position).val)
    ++ appendWord extraShape.dimensions.length ++ appendUsizes extraShape.dimensions
    ++ appendUsizes (List.ofFn pencil.topology.processGrid)
    ++ appendWord rootWord
    ++ appendWord T.size ++ appendWord T.align ++ appendWord U.size ++ appendWord U.align
    ++ appendTypeName T.name ++ appendTypeName U.name ++ appendTypeName callbackName

/-- SOURCE: collectives.rs:2292-2339 -/
def buildDescriptor (reserved : Bool) (operation rootWord : ℕ) : Option (List (BitVec 32)) := do
  let length ← descriptorLen (N := N) (M := M) extraShape T U callbackName
  if !reserved then none
  let descriptor := layoutWords pencil extraShape T U callbackName operation rootWord
  if descriptor.length ≠ length then none else some descriptor

/-- What this rank proposes: the header of `agree_descriptor` and the descriptor. -/
def layoutProposal (alloc : CollectiveAllocator) (operation rootWord : ℕ) : Proposal 32 where
  schema := descriptorSchema
  operation := BitVec.ofNat 64 operation
  spatialRank := BitVec.ofNat 64 N
  topologyRank := BitVec.ofNat 64 M
  expectedLen := descriptorLen (N := N) (M := M) extraShape T U callbackName
  descriptor := buildDescriptor pencil extraShape T U callbackName alloc.descriptor operation
    rootWord
  reserved := (alloc.minimum, alloc.maximum)

/-- The global element count.

SOURCE: collectives.rs:2226-2265 -/
def prepareLayout (alloc : CollectiveAllocator) (operation rootWord : ℕ) :
    RankProgram Unit M CollectiveError ℕ := do
  let _ ← agreeDescriptor
    (layoutProposal pencil extraShape T U callbackName alloc operation rootWord)
  agreePreflight (okOr (checkedMul extraShape.elementCount pencil.globalLen) .countOverflow)
    .collectivePreconditionFailed

end Descriptor

/-! ## Integer scalars -/

/-- The integer scalars a sum supports. -/
inductive IntegerScalar where
  | i8 | i16 | i32 | i64 | u8 | u16 | u32 | u64
deriving Repr, DecidableEq

namespace IntegerScalar

/-- `MIN` -/
def min : IntegerScalar → ℤ
  | i8 => -2 ^ 7
  | i16 => -2 ^ 15
  | i32 => -2 ^ 31
  | i64 => -2 ^ 63
  | u8 | u16 | u32 | u64 => 0

/-- `MAX` -/
def max : IntegerScalar → ℤ
  | i8 => 2 ^ 7 - 1
  | i16 => 2 ^ 15 - 1
  | i32 => 2 ^ 31 - 1
  | i64 => 2 ^ 63 - 1
  | u8 => 2 ^ 8 - 1
  | u16 => 2 ^ 16 - 1
  | u32 => 2 ^ 32 - 1
  | u64 => 2 ^ 64 - 1

/-- An integer of the type. -/
abbrev Value (scalar : IntegerScalar) : Type := { x : ℤ // scalar.min ≤ x ∧ x ≤ scalar.max }

/-- `zero` and `zero_for_sum` -/
def zero (scalar : IntegerScalar) : scalar.Value := ⟨0, by cases scalar <;> decide⟩

variable {scalar : IntegerScalar}

/-- `checked_add`, with the error of `checked_add_for_sum`.

SOURCE: collectives.rs:2571-2580 -/
def checkedAddForSum (a b : scalar.Value) : Except CollectiveError scalar.Value :=
  if h : scalar.min ≤ a.val + b.val ∧ a.val + b.val ≤ scalar.max then .ok ⟨a.val + b.val, h⟩
  else .error .integerOverflow

/-- SOURCE: collectives.rs:211-215 -/
def localSum (values : List scalar.Value) : Except CollectiveError scalar.Value :=
  values.foldlM checkedAddForSum scalar.zero

/-- The non-finite flags of an integer are zero and its sum does not use them.

SOURCE: collectives.rs:2022-2033 -/
def accumulateMappedSum (sum : Except CollectiveError scalar.Value) (value : scalar.Value) :
    Except CollectiveError scalar.Value :=
  match sum with
  | .ok sum => localSum [sum, value]
  | .error e => .error e

end IntegerScalar

/-! ## Sums -/

/-- SOURCE: collectives.rs:2099-2117 -/
def agreeSumResult (result : Except CollectiveError β) : RankProgram Unit M CollectiveError β := do
  if ← collectiveValid result.isOk then ofResult result
  else
    let localOverflow : Bool := match result with
      | .error .integerOverflow => true
      | _ => false
    let globalOverflow ← Fallible.perform (I := transport Unit M) (.allReduceMax 1) fun _ =>
      localOverflow.toNat
    if globalOverflow 0 ≠ 0 then fail .integerOverflow
    else fail (errOr result .collectivePreconditionFailed)

/-- The partials are overwritten by the gather.

SOURCE: collectives.rs:2516-2533 -/
def prepareIntegerCollectiveSum (reserved : Bool) (size : ℕ) :
    RankProgram Unit M CollectiveError Unit := do
  if ← collectiveValid reserved then return ()
  else fail (if reserved then .collectivePreconditionFailed else .allocationFailed size)

variable {scalar : IntegerScalar}

/-- SOURCE: collectives.rs:2544-2563 -/
def integerCollectiveSumPrepared (sum : scalar.Value) :
    CollectiveProgram scalar.Value M scalar.Value := do
  let partials ← Fallible.perform
    (I := (transport Unit M).beside (gathering scalar.Value)) (.inr .allGather) sum
  Fallible.ofExcept ((partials.foldlM IntegerScalar.checkedAddForSum scalar.zero).mapError .error)

/-- `type_name::<()>()` -/
def unitName : List (BitVec 8) := [0x28, 0x29]

/-- `global_sum` of an integer view.

SOURCE: collectives.rs:519-526, 1887-1905 -/
def globalSum (alloc : CollectiveAllocator) (T : TypeInfo)
    (view : PencilArrayView scalar.Value N M) : CollectiveProgram scalar.Value M scalar.Value := do
  let _ ← reducing (prepareLayout view.pencil view.extraShape T T unitName alloc opGlobalSum 0)
  let value ← reducing (agreeSumResult (IntegerScalar.localSum view.storage))
  reducing (prepareIntegerCollectiveSum alloc.partials view.pencil.topology.size)
  integerCollectiveSumPrepared value

/-- `sum_by` with an integer result.

SOURCE: collectives.rs:631-641, 1999-2020 -/
def sumBy (alloc : CollectiveAllocator) (T U : TypeInfo) (callbackName : List (BitVec 8))
    (view : PencilArrayView α N M) (f : α → scalar.Value) :
    CollectiveProgram scalar.Value M scalar.Value := do
  let _ ← reducing (prepareLayout view.pencil view.extraShape T U callbackName alloc opSumBy 0)
  reducing (prepareIntegerCollectiveSum alloc.partials view.pencil.topology.size)
  let sum := view.storage.foldl (fun sum value => IntegerScalar.accumulateMappedSum sum (f value))
    (.ok scalar.zero)
  let value ← reducing (agreeSumResult sum)
  integerCollectiveSumPrepared value

end PencilRs.Model
