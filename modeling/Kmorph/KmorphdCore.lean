import Kmorph.DaemonCore
import Kmorph.NetsnapCore
import Kmorph.OpsCore

/-!
What `kmorphd/main.c` keeps beside the state machine: the takeover operations with
the dump they are configured for, and the network identity with the file a
restarted `kmorphd` finds it in.
-/

namespace Kmorph

/-- What a write of the standby network file returns, and what a failed one leaves in the file. -/
structure FileWrite where
  ret : Int
  left : Option (List Char)
deriving Repr, DecidableEq

/-- `network` is what `env.network` points to. `standby` is the standby network file and `stored`
the results of its writes so far; `applied` lists the identities given to `netsnap_apply`. -/
structure Kmorphd where
  ops : OpsCtx
  network : Option Netsnap
  applied : List Netsnap
  standby : Option (List Char)
  stored : List Int
  writes : ℕ → FileWrite

def Kmorphd.call (op : OpsCtx → Int × OpsCtx) (k : Kmorphd) : Int × Kmorphd :=
  let answer := op k.ops
  (answer.1, { k with ops := answer.2 })

def Kmorphd.restores (k : Kmorphd) : Bool :=
  !k.ops.ops.devicesTried && k.ops.ops.env.network

def Kmorphd.adopt (k : Kmorphd) : Int × Kmorphd :=
  Kmorphd.call opsTakeoverBase.adopt
    { k with applied := if k.restores then k.applied ++ k.network.toList else k.applied }

def Kmorphd.withEnv (env : OpsEnv) (k : Kmorphd) : Kmorphd :=
  { k with ops := { k.ops with ops := { k.ops.ops with env := env } } }

/-- A failed write is only warned about: the identity is replaced all the same. -/
def Kmorphd.storeNetwork (text : List Char) (next : Netsnap) (k : Kmorphd) : Kmorphd :=
  let write := k.writes 0
  { k.withEnv { k.ops.ops.env with network := true } with
    network := some next
    standby := if write.ret = 0 then some (cString text) else write.left
    stored := k.stored ++ [write.ret]
    writes := fun calls => k.writes (calls + 1) }

def kmorphdOps (inet : Inet) : DaemonOps Kmorphd where
  fence := Kmorphd.call opsTakeoverBase.fence
  adopt := Kmorphd.adopt
  preserve := Kmorphd.call opsTakeoverBase.preserve
  reap := Kmorphd.call opsTakeoverBase.reap
  onState _ _ k := k
  dropDump k := k.withEnv { k.ops.ops.env with dumpPath := none }
  takeNetwork text k :=
    match netsnapParse inet text with
    | .error _ => none
    | .ok next => some (k.storeNetwork text next)

/-- Of the files that can be read the first decides, also when it is malformed or names no link. -/
def loadNetwork (inet : Inet) : List (Option (List Char)) → Option Netsnap
  | [] => none
  | none :: paths => loadNetwork inet paths
  | some bytes :: _ =>
      match netsnapParse inet (fileString bytes) with
      | .error _ => none
      | .ok snap => if snap.links.length ≠ 0 then some snap else none

/-- What `daemon_setup` finds: the configuration but for the network, the trees and the files. -/
structure Setup where
  env : OpsEnv
  self : SelfInfo
  host : HostTree
  iommus : List Range
  present : DeviceId → Bool
  claimFile : Option Range
  standby : Option (List Char)
  image : Option (List Char)

def daemonSetup (inet : Inet) (found : Setup) (answers : ℕ → Answers) (writes : ℕ → FileWrite) :
    Kmorphd :=
  let network := loadNetwork inet [found.standby, found.image]
  let env := { found.env with network := network.isSome }
  { ops := ⟨opsInit env found.self found.host found.iommus found.present found.claimFile, answers⟩
    network := network
    applied := []
    standby := found.standby
    stored := []
    writes := writes }

end Kmorph
