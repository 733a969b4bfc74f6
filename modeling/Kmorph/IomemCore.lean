import Kmorph.RangesCore

/-!
Executable model of `lib/iomem.c`.
-/

namespace Kmorph

def iomemParseLine (line : List Char) : Except Int (UInt64 × UInt64 × List Char) :=
  let line := line.dropWhile (· = ' ')
  if line.head?.any isXdigit then
    let start := strtoullHex line
    if start.2.head? ≠ some '-' then .error (-EINVAL)
    else
      let stop := strtoullHex start.2.tail
      if " : ".toList.isPrefixOf stop.2 then .ok (.ofNat start.1, .ofNat stop.1, stop.2.drop 3)
      else .error (-EINVAL)
  else .error (-EINVAL)

/-- RAM a driver hot-added is named for it. -/
def isSystemRam (name : List Char) : Bool :=
  let ram := "System RAM".toList
  let driver := name.drop ram.length
  ram.isPrefixOf name && (driver = [] || " (".toList.isPrefixOf driver && driver.getLast? = some ')')

/-- The loop over the lines; `mem round` is the outcome of the allocation of its `round`-th
`rangeset_add`. -/
def iomemLoop (mem : ℕ → Bool) (ram : Rangeset) : List (List Char) → Int × Rangeset
  | [] => (0, ram)
  | line :: rest =>
      match iomemParseLine line with
      | .error _ => iomemLoop mem ram rest
      | .ok (start, stop, name) =>
          if isSystemRam name then
            match rangesetAdd (mem 0) ram start (stop - start + 1) with
            | (ret, ram) =>
                if ret ≠ 0 then (ret, ram) else iomemLoop (fun round => mem (round + 1)) ram rest
          else iomemLoop mem ram rest

def iomemSystemRam (mem : ℕ → Bool) (file : Except Int (List Char)) (ram : Rangeset) : Int × Rangeset :=
  match file with
  | .error ret => (ret, ram)
  | .ok bytes => iomemLoop mem ram ((cString (fileString bytes)).splitOn '\n')

end Kmorph
