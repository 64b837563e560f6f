import TommyOS.Lib.Alignment

/-!
# The memory pool of the USB driver

`AllocMem` hands out the pool from its start on and never takes anything back. Addresses are
`uintptr_t`, sizes `size_t`, and the two constraints `unsigned int`.
-/

namespace TommyOS.Usb

/-- `kMemoryPoolSize`. -/
def kMemoryPoolSize : BitVec 64 := 4096 * 32

/-- `Ceil`, at the type of an address. -/
def ceil (value : BitVec 64) (alignment : BitVec 32) : BitVec 64 :=
  (value + alignment.setWidth 64 - 1) &&& ~~~((alignment - 1).setWidth 64)

/-- The global `memory_pool`, by its address, and `alloc_ptr`. -/
structure MemoryPool where
  memoryPool : BitVec 64
  allocPtr : BitVec 64
deriving DecidableEq, Repr

namespace MemoryPool

/-- The pool before the first call. -/
def new (memoryPool : BitVec 64) : MemoryPool := ⟨memoryPool, memoryPool⟩

/-- `alloc_ptr` after the first `if` of `AllocMem`. -/
def aligned (m : MemoryPool) (alignment : BitVec 32) : BitVec 64 :=
  if 0 < alignment then ceil m.allocPtr alignment else m.allocPtr

/-- `alloc_ptr` after the second `if` of `AllocMem`. -/
def placed (m : MemoryPool) (size : BitVec 64) (alignment boundary : BitVec 32) : BitVec 64 :=
  let allocPtr := m.aligned alignment
  if 0 < boundary then
    let nextBoundary := ceil allocPtr boundary
    if nextBoundary < allocPtr + size then nextBoundary else allocPtr
  else
    allocPtr

/-- `AllocMem`. A call that fails keeps what the roundings did to `alloc_ptr`. -/
def allocMem (m : MemoryPool) (size : BitVec 64) (alignment boundary : BitVec 32) :
    Option (BitVec 64) × MemoryPool :=
  let p := m.placed size alignment boundary
  if m.memoryPool + kMemoryPoolSize < p + size then
    (none, { m with allocPtr := p })
  else
    (some p, { m with allocPtr := p + size })

/-- `AllocArray`, for objects of `sizeofT` bytes. -/
def allocArray (m : MemoryPool) (sizeofT numObj : BitVec 64) (alignment boundary : BitVec 32) :
    Option (BitVec 64) × MemoryPool :=
  m.allocMem (sizeofT * numObj) alignment boundary

end MemoryPool
end TommyOS.Usb
