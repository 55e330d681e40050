import PencilRs.Model.Catalog
import PencilRs.Model.Container
import PencilRs.Model.Gather

/-!
# Chunked files

Each rank writes its elements in storage order as one block.  The blocks follow a header in the
order of the ranks, and a table in the header says what each block holds and where it starts.
Whoever knows the layout can compute the header, so a reader computes it again and compares.

SOURCE: pencil-io/src/chunked.rs
-/

set_option autoImplicit false

namespace PencilRs.Model

open PencilRs.Computation

variable {N M : ℕ}

namespace Chunked

/-- `b"PNCHUNK3"`

SOURCE: chunked.rs:18 -/
def magic : List Byte := [0x50, 0x4e, 0x43, 0x48, 0x55, 0x4e, 0x4b, 0x33]

/-- SOURCE: chunked.rs:19 -/
def version : ℕ := 3

/-- SOURCE: chunked.rs:21 -/
def prefixBytes : ℕ := 96

/-- SOURCE: chunked.rs:22-26 -/
def invalid : IoError :=
  .invalidFile "invalid chunked metadata or writer layout mismatch (repartition unsupported)"

/-- SOURCE: chunked.rs:27-29 -/
def put (bytes : List Byte) (n : ℕ) : List Byte := bytes ++ leBytes 8 n

/-- SOURCE: chunked.rs:30-33 -/
def word (bytes : List Byte) (i : ℕ) : Except IoError ℕ :=
  okOr ((slice? bytes (i * 8) (i * 8 + 8)).map leValue) invalid

/-- SOURCE: chunked.rs:34-37 -/
def product (values : List ℕ) : Except IoError ℕ :=
  values.foldlM (fun a b => okOr (checkedMul a b) invalid) 1

/-- What the allocator of this rank grants while it builds a header. -/
structure Allocator where
  buffer : Bool
  offsets : Bool
  counts : Bool
deriving Repr, DecidableEq

/-- SOURCE: chunked.rs:75-81 -/
structure Header where
  bytes : List Byte
  offsets : List ℕ
  counts : List ℕ
  stop : ℕ
  info : MpiIo.DatasetInfo
deriving Repr, DecidableEq

/-- What the layout of a chunked file depends on, besides the communicator. -/
structure Layout where
  global : List ℕ
  extra : List ℕ
  grid : List ℕ
  decomp : List ℕ
  perm : List ℕ
deriving Repr, DecidableEq

/-- The loop over the axes of a decomposition or a permutation.

SOURCE: chunked.rs:114-120 -/
def distinctAxes (n : ℕ) (axes : List ℕ) : Bool :=
  axes.zipIdx.all fun (a, i) => a < n && !(axes.take i).contains a

/-- `rank_to_coordinates` -/
def rankToCoordinates (topology : MpiTopology M) (rank : ℕ) : List ℕ :=
  List.ofFn fun axis => (topology.coordsAt rank axis : ℕ)

/-- The indices into the grid and the coordinates are in range: both have the length of the
decomposition.

SOURCE: chunked.rs:173-177 -/
def axisRange (layout : Layout) (coords : List ℕ) (axis g : ℕ) : Except IoError Range :=
  match layout.decomp.findIdx? (fun a => a = axis) with
  | some j => (partitionRange g (layout.grid.getD j 0) (coords.getD j 0)).mapError fun _ => invalid
  | none => .ok ⟨0, g⟩

/-- One axis of a rank's entry in the table.

SOURCE: chunked.rs:172-181 -/
def pushAxis (layout : Layout) (coords : List ℕ) (state : List Byte × ℕ) (entry : ℕ × ℕ) :
    Except IoError (List Byte × ℕ) := do
  let (bytes, count) := state
  let range ← axisRange layout coords entry.2 entry.1
  let count ← okOr (checkedMul count range.len) invalid
  return (put (put bytes range.start) range.stop, count)

/-- The table as far as it is built, and where the next block starts. -/
structure Table where
  bytes : List Byte
  offsets : List ℕ
  counts : List ℕ
  offset : ℕ

/-- The entry of a rank.

SOURCE: chunked.rs:163-189 -/
def pushRank (topology : MpiTopology M) (width : ℕ) (layout : Layout) (table : Table)
    (rank : ℕ) : Except IoError Table := do
  let coords := rankToCoordinates topology rank
  ensure (coords.length = layout.grid.length) invalid
  let bytes := coords.foldl put table.bytes
  let count ← product layout.extra
  let (bytes, count) ← layout.global.zipIdx.foldlM (pushAxis layout coords) (bytes, count)
  let size ← okOr (checkedMul count width) invalid
  let offset ← okOr (checkedAdd table.offset size) invalid
  return {
    bytes := put (put bytes count) table.offset
    offsets := table.offsets ++ [table.offset]
    counts := table.counts ++ [count]
    offset }

/-- The check of the arguments.

SOURCE: chunked.rs:93-120 -/
def checkLayout (topology : MpiTopology M) (layout : Layout) : Except IoError Unit := do
  let n := layout.global.length
  let rank ← okOr (checkedAdd n layout.extra.length) invalid
  ensure (n ≠ 0 && n ≤ maxProtocolRank && rank ≤ maxProtocolRank && layout.grid.length ≠ 0
    && layout.grid.length ≤ n && layout.decomp.length = layout.grid.length
    && layout.perm.length = n && !layout.global.contains 0 && !layout.grid.contains 0) invalid
  let ranks ← product layout.grid
  ensure (ranks = topology.size) invalid
  ensure (List.ofFn topology.processGrid = layout.grid) invalid
  ensure (distinctAxes n layout.decomp) invalid
  ensure (distinctAxes n layout.perm) invalid

/-- The length of the header.

SOURCE: chunked.rs:121-131 -/
def headerLen (topology : MpiTopology M) (layout : Layout) : Except IoError ℕ := do
  let (n, e, m) := (layout.global.length, layout.extra.length, layout.grid.length)
  let record ← okOr (do
    let twice ← checkedMul n 2
    let record ← checkedAdd m twice
    checkedAdd record 2) invalid
  let words ← okOr (do
    let words ← checkedAdd 12 (n * 2)
    let words ← checkedAdd words e
    let words ← checkedAdd words (m * 2)
    let table ← checkedMul topology.size record
    checkedAdd words table) invalid
  okOr (checkedMul words 8) invalid

/-- The header in front of the table.

SOURCE: chunked.rs:140-162 -/
def front (topology : MpiTopology M) (typ : ScalarType) (layout : Layout) (len stop : ℕ) :
    List Byte :=
  let bytes := [version, len, stop, typ.code, typ.width, layout.global.length, layout.extra.length,
    layout.grid.length, topology.size, 1, 0].foldl put magic
  [layout.global, layout.extra, layout.grid, layout.decomp, layout.perm].foldl
    (fun bytes values => values.foldl put bytes) bytes

/-- `MPI_Offset` is a signed integer of 64 bits.

SOURCE: chunked.rs:84-217 -/
def header (alloc : Allocator) (topology : MpiTopology M) (typ : ScalarType) (layout : Layout) :
    Except IoError Header := do
  checkLayout topology layout
  let len ← headerLen topology layout
  ensure (len ≤ maxHeaderBytes) invalid
  let globalCount ← product layout.global
  let extraCount ← product layout.extra
  let total ← okOr (do
    let elements ← checkedMul globalCount extraCount
    checkedMul elements typ.width) invalid
  let stop ← okOr (checkedAdd len total) invalid
  ensure (stop ≤ i64Max) invalid
  ensure alloc.buffer (.allocationFailed len)
  let bytes := front topology typ layout len stop
  ensure alloc.offsets invalid
  ensure alloc.counts invalid
  let table ← (List.range topology.size).foldlM (pushRank topology typ.width layout)
    ⟨bytes, [], [], len⟩
  ensure (table.offset = stop && table.bytes.length = len) invalid
  let info : MpiIo.DatasetInfo := {
    name := none
    scalarType := typ
    globalShape := layout.global
    extraShape := layout.extra
    provenance := (layout.grid ++ layout.perm).foldl put [] }
  return { bytes := table.bytes, offsets := table.offsets, counts := table.counts, stop, info }

/-- The words from `pos` on. -/
def take (bytes : List Byte) (pos len : ℕ) : Except IoError (List ℕ) :=
  (List.range' pos len).mapM (word bytes)

/-- SOURCE: chunked.rs:218-244 -/
def parse (alloc : Allocator) (topology : MpiTopology M) (bytes : List Byte) (size : ℕ) :
    Except IoError Header := do
  ensure (prefixBytes ≤ bytes.length && bytes.take 8 = magic) invalid
  ensure ((← word bytes 1) = version) invalid
  ensure ((← word bytes 2) = bytes.length) invalid
  ensure ((← word bytes 3) = size) invalid
  let code ← word bytes 4
  let width ← word bytes 5
  let typ ← okOr (ScalarType.decode code width) invalid
  let n ← word bytes 6
  let e ← word bytes 7
  let m ← word bytes 8
  ensure (n ≤ maxProtocolRank && e ≤ maxProtocolRank && m ≤ maxProtocolRank) invalid
  let global ← take bytes 12 n
  let extra ← take bytes (12 + n) e
  let grid ← take bytes (12 + n + e) m
  let decomp ← take bytes (12 + n + e + m) m
  let perm ← take bytes (12 + n + e + m + m) n
  let header ← header alloc topology typ { global, extra, grid, decomp, perm }
  ensure (header.bytes = bytes) invalid
  return header

/-- The length of the header, from the words in front.

SOURCE: chunked.rs:270-284 -/
def scanLength (pre : List Byte) (size : ℕ) : Except IoError ℕ := do
  let n ← word pre 2
  ensure (pre.take 8 = magic) invalid
  ensure ((← word pre 1) = version) invalid
  ensure (prefixBytes ≤ n && n ≤ maxHeaderBytes && n ≤ size) invalid
  return n

/-- What a rank makes of the bytes of a file when the agreements and the broadcasts of the first
rank's bytes go through.  Reading past the end of the file is a failed read.

SOURCE: chunked.rs:245-287 -/
def scan (alloc : Allocator) (topology : MpiTopology M) (file : List Byte) :
    Except IoError Header := do
  let readFailed := IoError.collectivePrecondition "chunked metadata read"
  let pre ← okOr (slice? file 0 prefixBytes) readFailed
  let len ← scanLength pre file.length
  let bytes ← okOr (slice? file 0 len) readFailed
  parse alloc topology bytes file.length

/-! ## Writing -/

/-- The layout of a pencil. -/
def layoutOf (pencil : Pencil N M) (extra : List ℕ) : Layout where
  global := List.ofFn pencil.globalShape
  extra
  grid := List.ofFn pencil.topology.processGrid
  decomp := List.ofFn fun i => (pencil.decomposition.axes i : ℕ)
  perm := List.ofFn fun i => (pencil.permutation.axesInMemoryOrder i : ℕ)

/-- The preparation of a rank once the ranks agree on the descriptor.

SOURCE: chunked.rs:349-364 -/
def prepareView (alloc : Allocator) (typ : ScalarType) (pencil : Pencil N M) (extra : List ℕ)
    (localElements : ℕ) : Except (Stop IoError) (Header × ℕ) := do
  let bytes ← (MpiIo.checkedLocalByteCount localElements typ.width).mapError .error
  let header ← (header alloc pencil.topology typ (layoutOf pencil extra)).mapError .error
  let count ← okOr header.counts[pencil.topology.rank]? .panic
  ensure (localElements = count) (.error invalid)
  return (header, bytes)

/-- The word that says that the file is complete. -/
def commitOffset : ℕ := 80

/-- The header as it is written first.

SOURCE: chunked.rs:416 -/
def uncommitted (header : Header) : List Byte := splice header.bytes commitOffset (leBytes 8 0)

end Chunked

end PencilRs.Model
