import Kmorph.Libc

/-!
Executable model of `lib/ranges.c`. A rangeset is its array of ranges with the
capacity of the allocation; `count` is the length. Every operation takes the
outcome of the one `realloc` it may make and returns its result code with the
rangeset as it leaves it.
-/

namespace Kmorph

structure Range where
  base : UInt64
  size : UInt64
deriving Repr, DecidableEq

structure Rangeset where
  r : List Range
  cap : Nat
deriving Repr, DecidableEq

/-- `RANGESET_INIT`, which is also what `rangeset_free` leaves. -/
def rangesetInit : Rangeset := { r := [], cap := 0 }

def Rangeset.count (s : Rangeset) : Nat := s.r.length

def rangeEnd (r : Range) : UInt64 := r.base + r.size

def rangesetInsert (grown : Bool) (s : Rangeset) (index : Nat) (base size : UInt64) :
    Int × Rangeset :=
  if s.count = s.cap then
    if grown then
      (0, { r := s.r.insertIdx index ⟨base, size⟩, cap := if s.cap = 0 then 8 else s.cap * 2 })
    else (-ENOMEM, s)
  else (0, { s with r := s.r.insertIdx index ⟨base, size⟩ })

/-- The second loop of `rangeset_add`, over the ranges from index `i` on: what is
swallowed widens `[base, stop)`, the rest of the array is returned. -/
def swallow (base stop : UInt64) : List Range → UInt64 × UInt64 × List Range
  | [] => (base, stop, [])
  | r :: rest =>
      if r.base ≤ stop then
        swallow (if r.base < base then r.base else base)
          (if rangeEnd r > stop then rangeEnd r else stop) rest
      else (base, stop, r :: rest)

def rangesetAdd (grown : Bool) (s : Rangeset) (base size : UInt64) : Int × Rangeset :=
  let stop := base + size
  if size = 0 ∨ stop < base then (-EINVAL, s)
  else
    -- the first loop leaves `i` after the ranges that end below `base`
    let below := s.r.takeWhile fun r => rangeEnd r < base
    match swallow base stop (s.r.dropWhile fun r => rangeEnd r < base) with
    | (base, stop, kept) =>
        rangesetInsert grown { s with r := below ++ kept } below.length base (stop - base)

/-- The loop of `rangeset_subtract` with `done` the ranges before index `i`. -/
def subtractLoop (grown : Bool) (cap : Nat) (base stop : UInt64) :
    List Range → List Range → Int × Rangeset
  | done, [] => (0, { r := done, cap := cap })
  | done, r :: rest =>
      let rend := rangeEnd r
      if rend ≤ base ∨ r.base ≥ stop then
        subtractLoop grown cap base stop (done ++ [r]) rest
      else if r.base < base ∧ rend > stop then
        -- the range is split in two, and no later range reaches back below `stop`
        match rangesetInsert grown { r := done ++ r :: rest, cap := cap } (done.length + 1)
            stop (rend - stop) with
        | (ret, s) =>
            if ret ≠ 0 then (ret, s)
            else (0, { s with r := s.r.set done.length { r with size := base - r.base } })
      else if r.base < base then
        subtractLoop grown cap base stop (done ++ [{ r with size := base - r.base }]) rest
      else if rend > stop then
        subtractLoop grown cap base stop (done ++ [{ base := stop, size := rend - stop }]) rest
      else subtractLoop grown cap base stop done rest

def rangesetSubtract (grown : Bool) (s : Rangeset) (base size : UInt64) : Int × Rangeset :=
  let stop := base + size
  if size = 0 ∨ stop < base then (-EINVAL, s)
  else subtractLoop grown s.cap base stop [] s.r

/-- A loop over the ranges of another rangeset that stops at the first error. The `i`-th
round gets the outcome `mem i` of its allocation. -/
def rangesetEach (op : Bool → Rangeset → UInt64 → UInt64 → Int × Rangeset) :
    (Nat → Bool) → Rangeset → List Range → Int × Rangeset
  | _, s, [] => (0, s)
  | mem, s, r :: rest =>
      match op (mem 0) s r.base r.size with
      | (ret, s) =>
          if ret ≠ 0 then (ret, s) else rangesetEach op (fun round => mem (round + 1)) s rest

def rangesetSubtractSet (mem : Nat → Bool) (s minus : Rangeset) : Int × Rangeset :=
  rangesetEach rangesetSubtract mem s minus.r

/-- The destination is freed first, so what it held does not matter. -/
def rangesetCopy (mem : Nat → Bool) (_dst src : Rangeset) : Int × Rangeset :=
  rangesetEach rangesetAdd mem rangesetInit src.r

def alignLoop (block : UInt64) : (Nat → Bool) → Rangeset → List Range → Int × Rangeset
  | _, out, [] => (0, out)
  | mem, out, r :: rest =>
      let base := (r.base + block - 1) / block * block
      let stop := rangeEnd r / block * block
      if stop ≤ base then alignLoop block (fun round => mem (round + 1)) out rest
      else
        match rangesetAdd (mem 0) out base (stop - base) with
        | (ret, out) =>
            if ret ≠ 0 then (ret, out)
            else alignLoop block (fun round => mem (round + 1)) out rest

def rangesetAlign (mem : Nat → Bool) (s : Rangeset) (block : UInt64) (out : Rangeset) :
    Int × Rangeset :=
  if block = 0 then (-EINVAL, out) else alignLoop block mem out s.r

def rangesetContains (s : Rangeset) (base size : UInt64) : Bool :=
  s.r.any fun r => r.base ≤ base && base + size ≤ rangeEnd r

def rangesetTotal (s : Rangeset) : UInt64 :=
  s.r.foldl (fun total r => total + r.size) 0

end Kmorph
