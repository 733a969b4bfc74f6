import Kmorph.HostTreeCore

/-!
Executable model of what a successor may take, `lib/takeable.c`, and of the
granule the kernel takes memory in, `lib/memblock.c`. What an allocation or a file
gives is an argument.
-/

namespace Kmorph

structure Takeable where
  memory : Rangeset
  cpus : List UInt64
deriving Repr, DecidableEq

def Takeable.free : Takeable := ⟨rangesetInit, []⟩

def cpulistHas (l : List UInt64) (id : UInt64) : Bool := l.any (· == id)

def cpulistDifference (granted : Bool) (all minus : List UInt64) : Int × List UInt64 :=
  if granted then
    (0, all.foldl (fun out id =>
      if !cpulistHas minus id && !cpulistHas out id then out ++ [id] else out) [])
  else (-ENOMEM, [])

structure TakeableAllocs where
  copy : Nat → Bool
  own : Nat → Bool
  reserved : Nat → Bool
  cpus : Bool

def takeableCompute (mem : TakeableAllocs) (ht : HostTree) (ownRam reserved : Rangeset)
    (ownCpus : List UInt64) : Int × Takeable :=
  let copied := rangesetCopy mem.copy rangesetInit ht.ram
  if copied.1 ≠ 0 then (copied.1, .free)
  else
    let foreign := rangesetSubtractSet mem.own copied.2 ownRam
    if foreign.1 ≠ 0 then (foreign.1, .free)
    else
      let memory := rangesetSubtractSet mem.reserved foreign.2 reserved
      if memory.1 ≠ 0 then (memory.1, .free)
      else
        let cpus := cpulistDifference mem.cpus ht.cpus ownCpus
        if cpus.1 ≠ 0 then (cpus.1, .free)
        else if memory.2.r = [] ∨ cpus.2 = [] then (-ENOENT, .free)
        else (0, ⟨memory.2, cpus.2⟩)

/-- The granule the kernel publishes, if it is a power of two, else the memory block size. -/
def memoryGranule (published blockSize : Int × UInt64) : Int × UInt64 :=
  if published.1 = 0 ∧ published.2 ≠ 0 ∧ published.2 &&& (published.2 - 1) = 0 then
    (0, published.2)
  else blockSize

end Kmorph
