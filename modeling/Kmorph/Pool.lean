import Kmorph.HostTree
import Kmorph.Plan
import Kmorph.PoolCore
import Kmorph.Scanning

/-!
The two ends of the next pool: what `kmorphd` keeps for it and writes to the claim
file, and what `kmorph arm` reads there and asks the kernel for.
-/

namespace Kmorph

theorem isXdigit_hexDigit {n : ℕ} (digit : n < 16) : isXdigit (hexDigit n) = true := by
  have all : ∀ n : Fin 16, isXdigit (hexDigit n) = true := by decide
  exact all ⟨n, digit⟩

theorem hex_ne_nil (n : ℕ) : hex n ≠ [] := by
  unfold hex
  split
  · simp
  · rename_i sized
    simpa [Nat.digits_ne_nil_iff_ne_zero] using sized

theorem isXdigit_hex (n : ℕ) : ∀ c ∈ hex n, isXdigit c = true := by
  unfold hex
  split
  · simp [isXdigit_of_isDigit]
  · intro c member
    obtain ⟨digit, found, rfl⟩ := List.mem_map.mp member
    exact isXdigit_hexDigit (Nat.digits_lt_base (by decide) (List.mem_reverse.mp found))

def resourcesOf (tree : Node) : List (Name × Node) :=
  match tree.children.lookup "resources".toList with
  | none => []
  | some resources => resources.children

theorem resourcesOf_baseline (a : PoolArgs) : resourcesOf (buildPoolBaseline a) =
    a.claim.toList.map claimedMemory ++
      (if poolGrow a ≠ 0 then
        [grownMemory (if a.claim.isSome then "memory@1" else "memory@0") (poolGrow a)] else []) ++
      if a.devices ≠ [] ∨ a.platformDevices ≠ [] then
        [("devices".toList, .mk [] (a.devices.map emitBaselineDeviceNode ++
          a.platformDevices.map emitPlatformDeviceNode))]
      else [] := rfl

section InitPool

variable {cfg : PoolConfig} {a : PoolAnswers} {devices : List PciIds}

end InitPool

end Kmorph
