import Kmorph.Libc
import Mathlib.Data.List.Sort

/-!
Executable model of `lib/madt.c`, with `cpulist_normalize` of `lib/parse.c`. The
table is the bytes of the file; `granted n` is the outcome of the allocation the
push of the `n`-th CPU may make.
-/

namespace Kmorph

def MADT_HEADER_LEN : ℕ := 44
def MADT_ENTRY_LAPIC : UInt8 := 0
def MADT_ENTRY_X2APIC : UInt8 := 9
def MADT_ENTRY_GICC : UInt8 := 0x0b
def MADT_CPU_ENABLED : UInt32 := 0x1
def MADT_CPU_ONLINE_CAPABLE : UInt32 := 0x2
def MADT_GICC_ONLINE_CAPABLE : UInt32 := 0x8
def MADT_GICC_MPIDR : ℕ := 68
def MPIDR_HWID_MASK : UInt64 := 0xff00ffffff

def le32 (p : List UInt8) : UInt32 :=
  (p.getD 0 0).toUInt32 ||| (p.getD 1 0).toUInt32 <<< 8 ||| (p.getD 2 0).toUInt32 <<< 16 |||
    (p.getD 3 0).toUInt32 <<< 24

def le64 (p : List UInt8) : UInt64 :=
  (le32 p).toUInt64 ||| (le32 (p.drop 4)).toUInt64 <<< 32

/-- A list of CPUs while it is filled, with the capacity of its allocation. -/
structure Cpulist where
  ids : List UInt64
  cap : ℕ
deriving Repr, DecidableEq

def cpulistPush (grown : Bool) (l : Cpulist) (id : UInt64) : Int × Cpulist :=
  if l.ids.length = l.cap then
    if grown then (0, { ids := l.ids ++ [id], cap := if l.cap = 0 then 16 else l.cap * 2 })
    else (-ENOMEM, l)
  else (0, { l with ids := l.ids ++ [id] })

/-- `qsort` with `cmp_u64`, then the loop that keeps the first of equal neighbours. -/
def cpulistNormalize (ids : List UInt64) : List UInt64 :=
  (ids.insertionSort (· ≤ ·)).foldl
    (fun kept id => if kept.getLast? = some id then kept else kept ++ [id]) []

/-- The id of the CPU an entry describes, `none` where `madt_entry_cpu` returns 0. -/
def madtEntryCpu (e : List UInt8) (len : ℕ) : Option UInt64 :=
  let type := e.getD 0 0
  if type = MADT_ENTRY_LAPIC then
    if len < 8 then none
    else if le32 (e.drop 4) &&& (MADT_CPU_ENABLED ||| MADT_CPU_ONLINE_CAPABLE) ≠ 0 then
      some (e.getD 3 0).toUInt64
    else none
  else if type = MADT_ENTRY_X2APIC then
    if len < 12 then none
    else if le32 (e.drop 8) &&& (MADT_CPU_ENABLED ||| MADT_CPU_ONLINE_CAPABLE) ≠ 0 then
      some (le32 (e.drop 4)).toUInt64
    else none
  else if type = MADT_ENTRY_GICC then
    if len < MADT_GICC_MPIDR + 8 then none
    else if le32 (e.drop 12) &&& (MADT_CPU_ENABLED ||| MADT_GICC_ONLINE_CAPABLE) ≠ 0 then
      some (le64 (e.drop MADT_GICC_MPIDR) &&& MPIDR_HWID_MASK)
    else none
  else none

/-- The loop over the entries and what follows it up to `out`. `ret` is the result so far: each
push overwrites it, and a bad entry leaves it as it is. -/
def madtEntries (granted : ℕ → Bool) (table : List UInt8) (len off : ℕ) (ret : Int) (l : Cpulist) :
    Int × List UInt64 :=
  if off + 2 ≤ len then
    let elen := (table.getD (off + 1) 0).toNat
    if elen < 2 ∨ off + elen > len then (ret, l.ids)
    else
      match madtEntryCpu (table.drop off) elen with
      | none => madtEntries granted table len (off + elen) ret l
      | some id =>
          match cpulistPush (granted l.ids.length) l id with
          | (ret, l) =>
              if ret ≠ 0 then (ret, l.ids)
              else madtEntries granted table len (off + elen) ret l
  else (0, cpulistNormalize l.ids)
termination_by len - off
decreasing_by
  all_goals
    have fits : ¬ (elen < 2 ∨ off + elen > len) := ‹_›
    simp only [elen, List.getD_eq_getElem?_getD] at fits
    omega

/-- What `madt_read_cpus` returns and the list it leaves. -/
def madtReadCpus (granted : ℕ → Bool) (file : Except Int (List UInt8)) : Int × List UInt64 :=
  match file with
  | .error ret => (ret, [])
  | .ok table =>
      let declared := (le32 (table.drop 4)).toNat
      let read :=
        if table.length < MADT_HEADER_LEN ∨ table.take 4 ≠ [0x41, 0x50, 0x49, 0x43] ∨
            declared > table.length then (-EINVAL, [])
        else madtEntries granted table declared MADT_HEADER_LEN (-EINVAL) { ids := [], cap := 0 }
      if read.1 ≠ 0 then (read.1, []) else read

end Kmorph
