import Kmorph.ConfigCore
import Kmorph.FdtPoolCore
import Kmorph.MkfsCore

/-!
Executable model of the two commands that make a successor and take it away again,
`arm_run` and `disarm_run` of `kmorph/arm.c`, with the calls they make.
-/

namespace Kmorph

def KMORPH_INITRD_PATH : List Char := "/var/lib/kmorph/successor.img".toList
def DUMP_CMDLINE_PARAM : List Char := "iomem=relaxed".toList

/-! The command line. -/

section Cmdline

/-- The loop of `cmdline_has_word` from `p` on; `before` is the character in front of it. -/
def hasWordFrom (word : List Char) (before : Option Char) : List Char → Bool
  | [] => false
  | c :: p =>
      if word.isPrefixOf (c :: p) then
        let rest := p.drop (word.length - 1)
        let starts := before.all (· = ' ')
        let ends := rest.head?.all (· = ' ')
        if starts && ends then true else hasWordFrom word word.getLast? rest
      else hasWordFrom word (some c) p
termination_by p => p.length
decreasing_by
  · rw [List.length_drop, List.length_cons]
    omega
  · exact Nat.lt_succ_self _

def cmdlineHasWord (cmdline word : List Char) : Bool := hasWordFrom word none cmdline

/-- `NULL` also where the string cannot be allocated. -/
def successorCmdline (granted : Bool) (cfg : KmorphConfig) : Option (List Char) :=
  let base := cfg.cmdline.getD []
  if cfg.dump = none ∨ cmdlineHasWord base DUMP_CMDLINE_PARAM then
    if granted then cfg.cmdline else none
  else if granted then some (base ++ (if base ≠ [] then [' '] else []) ++ DUMP_CMDLINE_PARAM)
  else none

end Cmdline

/-- What a step returns and the calls it has made. -/
abbrev CallRun := Int × List KernelCall

/-- The next step is taken only if this one returns 0. -/
def CallRun.andThen (first next : CallRun) : CallRun :=
  if first.1 ≠ 0 then first else (next.1, first.2 ++ next.2)

/-- What one `kmorph arm` meets: the devices in sysfs, the pool, the machine, the image of the
successor, and how each call is answered. -/
structure ArmEnv where
  sysfs : Sysfs
  realpathErrno : ∀ {c name errno}, sysfs.realpath c name = .error errno → errno ≠ 0
  listGranted : ℕ → Bool
  rootTree : Except Int (List UInt8)
  pool : PoolAnswers
  poolGranted : Bool
  poolBuilt : Int
  poolOverlay : TxAnswers
  file : List Char → Except Int (List UInt8)
  snapshot : List (List Char) → Snapshot
  archiveGranted : ℕ → Bool
  memfd : Int
  writes : List WriteAnswer
  machine : MachineFiles
  createBuilt : Int
  create : TxAnswers
  instances : MkfsFiles
  kernelFd : Int
  cmdlineGranted : Bool
  load : Answer
  exec : Answer

section Pool

def checkPoolFits (pool : PoolView) (cfg : PoolConfig) : Int :=
  if (consolePlatformDevices cfg).any fun device => !strlistContains pool.platformDevices device then -ENOENT
  else if cfg.cpus.any fun id => !pool.freeCpus.contains id then -ENOENT
  else if cfg.memory > pool.freeBytes then -ENOSPC
  else 0

/-- A step that hands an overlay to the kernel, by what `mkfs_apply_overlay` returns for it. -/
def handOver (a : TxAnswers) (step : Int → Int × List Node) : CallRun :=
  let run := step (mkfsApplyOverlay a).1
  (run.1, run.2.map fun tree => .applyOverlay tree (mkfsApplyOverlay a).1)

/-- An empty tree describes no pool. -/
def readPool (tree : List UInt8) : Option (Except Int PoolView) :=
  if tree = [] then some (.error (-ENOENT)) else Fdt.dtReadPool tree

/-- The pool that there is is used; one that there is not is made. -/
def usePool (cfg : PoolConfig) (env : ArmEnv) : Except Int PoolView → CallRun
  | .error ret =>
      if ret = -ENOENT then
        let run := initPool cfg env.pool
        (run.ret, run.baselines.map .writeBaseline)
      else (ret, [])
  | .ok pool =>
      let fits := checkPoolFits pool cfg
      if fits ≠ 0 then (fits, [])
      else
        let (ret, calls) := handOver env.poolOverlay
          fun applied => armPoolAddDevices env.poolGranted ⟨env.poolBuilt, applied⟩ cfg.devices pool
        (if ret < 0 then ret else 0, calls)

def ensurePool (cfg : PoolConfig) (env : ArmEnv) : Option CallRun :=
  match env.rootTree with
  | .error ret => some (ret, [])
  | .ok tree => (readPool tree).map (usePool cfg env)

end Pool

section Arm

/-- What the host tree is built from. -/
def ArmEnv.files (env : ArmEnv) (cfg : KmorphConfig) : MachineFiles :=
  { env.machine with machineCpus := cfg.machineCpus, dump := cfg.dump.isSome }

def ArmEnv.initrd (env : ArmEnv) (cfg : KmorphConfig) (devices : List DeviceId) : Option (Int × List UInt8) :=
  successorInitrd env.archiveGranted (env.file (cfg.initrd.getD KMORPH_INITRD_PATH)) (textBytes cfg.text)
    (env.snapshot devices) env.memfd env.writes

/-- `create_instance` with its call. -/
def createSuccessor (cfg : KmorphConfig) (pool : PoolConfig) (env : ArmEnv) : CallRun :=
  handOver env.create fun applied =>
    createInstance cfg.name pool (buildHostTree (env.files cfg)) ⟨env.createBuilt, applied⟩

def loadAndExec (cfg : KmorphConfig) (kernel : List Char) (env : ArmEnv) (id : UInt32) (initrd : List UInt8) :
    CallRun :=
  if env.kernelFd < 0 then (env.kernelFd, [])
  else
    let cmdline := successorCmdline env.cmdlineGranted cfg
    if cmdline = none ∧ (cfg.cmdline ≠ none ∨ cfg.dump ≠ none) then (-ENOMEM, [])
    else
      let mkId := toInt id.toNat
      CallRun.andThen (env.load.ret, [mksysKexecLoad ⟨kernel, initrd, cmdline⟩ mkId env.load.ret])
        (env.exec.ret, [mksysExec mkId env.exec.ret])

/-- The id of the instance that was created, and what it is then used for. -/
def startSuccessor (cfg : KmorphConfig) (kernel : List Char) (env : ArmEnv) (initrd : List UInt8) : CallRun :=
  match mkfsInstanceId env.instances cfg.name with
  | .error ret => (ret, [.instanceId cfg.name (.error ret)])
  | .ok id => CallRun.andThen (0, [.instanceId cfg.name (.ok id)]) (loadAndExec cfg kernel env id initrd)

/-- From the successor's initrd on, with the devices resolved and the pool there. -/
def armInstance (cfg : KmorphConfig) (kernel : List Char) (pool : PoolConfig) (env : ArmEnv) : Option CallRun := do
  let (fd, initrd) ← env.initrd cfg pool.devices
  if fd < 0 then return (fd, [])
  return (createSuccessor cfg pool env).andThen (startSuccessor cfg kernel env initrd)

def armRun (cfg : KmorphConfig) (env : ArmEnv) : Option CallRun :=
  match cfg.kernel with
  | none => some (-EINVAL, [])
  | some kernel =>
      if someCpu : cfg.cpus = [] then some (-EINVAL, [])
      else if cfg.memory = 0 then some (-EINVAL, [])
      else
        match resolveDevices env.sysfs env.listGranted cfg.devices with
        | .error ret => some (ret, [])
        | .ok devices => do
            let pool : PoolConfig := ⟨cfg.cpus, cfg.memory, devices, cfg.console.isSome, someCpu⟩
            let ensured ← ensurePool pool env
            if ensured.1 ≠ 0 then return ensured
            return ensured.andThen (← armInstance cfg kernel pool env)

end Arm

section Disarm

structure DisarmEnv where
  instances : MkfsFiles
  halt : Answer
  unload : Answer
  built : Int
  remove : TxAnswers

def haltInstance (mkId : Int) (status : List Char) (env : DisarmEnv) : CallRun :=
  if status = "active".toList then (env.halt.ret, [mksysHalt mkId env.halt.ret]) else (0, [])

/-- A halted instance keeps its image. -/
def unloadInstance (mkId : Int) (status : List Char) (env : DisarmEnv) : CallRun :=
  if status = "active".toList ∨ status = "loaded".toList then
    (env.unload.ret, [mksysKexecUnload mkId env.unload.ret])
  else (0, [])

def removeInstance (name : Name) (env : DisarmEnv) : CallRun :=
  if env.built ≠ 0 then (env.built, [])
  else
    let ret := (mkfsApplyOverlay env.remove).1
    (ret, [.applyOverlay (buildInstanceRemove name) ret])

def disarmStatus : Except Int (List Char) → List Char
  | .error _ => "unknown".toList
  | .ok status => status

/-- From the id on. -/
def takeAway (name : Name) (id : UInt32) (env : DisarmEnv) : CallRun :=
  let read := mkfsInstanceStatus env.instances name 32
  let status := disarmStatus read
  let mkId := toInt id.toNat
  CallRun.andThen (0, [.instanceStatus name read])
    ((haltInstance mkId status env).andThen ((unloadInstance mkId status env).andThen (removeInstance name env)))

def disarmRun (name : Name) (env : DisarmEnv) : CallRun :=
  match mkfsInstanceId env.instances name with
  | .error ret => (ret, [.instanceId name (.error ret)])
  | .ok id => CallRun.andThen (0, [.instanceId name (.ok id)]) (takeAway name id env)

end Disarm

/-- The commands, each with what it meets. -/
inductive Command
  | arm (cfg : KmorphConfig) (env : ArmEnv)
  | disarm (cfg : KmorphConfig) (env : DisarmEnv)

/-- What a command returns, if it does. -/
def Command.run : Command → Option CallRun
  | .arm cfg env => armRun cfg env
  | .disarm cfg env => some (disarmRun cfg.name env)

/-- The calls of commands that follow each other. -/
def runCommands : List Command → Option (List KernelCall)
  | [] => some []
  | command :: rest => do
      let (_, calls) ← command.run
      return calls ++ (← runCommands rest)

end Kmorph
