import Kmorph.ParseCore

/-!
Executable model of `lib/config.c`, with `open_timer` of `kmorphd/main.c`, which
the interval is for. Memory allocation succeeds throughout; where it fails, so does
the parse. `strerror` is that of the C library.
-/

namespace Kmorph

structure KmorphConfig where
  name : List Char
  cpus : List UInt64
  memory : UInt64
  kernel : Option (List Char)
  initrd : Option (List Char)
  cmdline : Option (List Char)
  devices : List (List Char)
  machineCpus : List UInt64
  modules : List (List Char)
  standby : List (List Char)
  standbyFiles : List (List Char)
  probeIntervalMs : UInt64
  probeTimeouts : UInt32
  fenceRetries : UInt32
  dump : Option (List Char)
  resetDevices : Bool
  console : Option (List Char)
  consoleBaud : UInt32
  consoleLogin : Option (List Char)
  text : List Char
deriving Repr, DecidableEq

def configDefaults : KmorphConfig where
  name := "successor".toList
  cpus := []
  memory := 0
  kernel := none
  initrd := none
  cmdline := none
  devices := []
  machineCpus := []
  modules := []
  standby := []
  standbyFiles := []
  probeIntervalMs := 100
  probeTimeouts := 5
  fenceRetries := 3
  dump := none
  resetDevices := true
  console := none
  consoleBaud := 115200
  consoleLogin := none
  text := []

def setString (value : List Char) : Option (List Char) := if value = [] then none else some value

def setUint (min : ℕ) (value : List Char) : Except Int UInt32 :=
  if value.head?.any Char.isDigit then
    let scanned := strtoul value
    if scanned.2 ≠ [] ∨ scanned.1 < min ∨ scanned.1 > 2 ^ 32 - 1 then .error (-EINVAL)
    else .ok (.ofNat scanned.1)
  else .error (-EINVAL)

def setBool (value : List Char) : Except Int Bool :=
  if value = "yes".toList then .ok true
  else if value = "no".toList then .ok false
  else .error (-EINVAL)

/-- What a parser of a list returns, for a list that is freed before and stays empty without a
value. -/
def setList {α : Type} (parse : List Char → Int × List α) (value : List Char) : Except Int (List α) :=
  if value = [] then .ok []
  else
    let parsed := parse value
    if parsed.1 = 0 then .ok parsed.2 else .error parsed.1

def setCpulist : List Char → Except Int (List UInt64) := setList (parseCpulist fun _ => true)
def setStrlist : List Char → Except Int (List (List Char)) := setList (parseStrlist fun _ => true)

inductive ConfigKey
  | name
  | cpus
  | memory
  | kernel
  | initrd
  | cmdline
  | machineCpus
  | devices
  | modules
  | standby
  | standbyFiles
  | probeInterval
  | probeTimeouts
  | fenceRetries
  | dump
  | resetDevices
  | console
  | consoleBaud
  | consoleLogin
deriving Repr, DecidableEq

namespace ConfigKey

def text : ConfigKey → List Char
  | name => "name".toList
  | cpus => "cpus".toList
  | memory => "memory".toList
  | kernel => "kernel".toList
  | initrd => "initrd".toList
  | cmdline => "cmdline".toList
  | machineCpus => "machine_cpus".toList
  | devices => "devices".toList
  | modules => "modules".toList
  | standby => "standby".toList
  | standbyFiles => "standby_files".toList
  | probeInterval => "probe_interval".toList
  | probeTimeouts => "probe_timeouts".toList
  | fenceRetries => "fence_retries".toList
  | dump => "dump".toList
  | resetDevices => "reset_devices".toList
  | console => "console".toList
  | consoleBaud => "console_baud".toList
  | consoleLogin => "console_login".toList

/-- The keys in the order `config_set` tries them. -/
def all : List ConfigKey :=
  [name, cpus, memory, kernel, initrd, cmdline, machineCpus, devices, modules, standby, standbyFiles,
    probeInterval, probeTimeouts, fenceRetries, dump, resetDevices, console, consoleBaud, consoleLogin]

abbrev Value : ConfigKey → Type
  | name => List Char
  | cpus | machineCpus => List UInt64
  | memory | probeInterval => UInt64
  | kernel | initrd | cmdline | dump | console | consoleLogin => Option (List Char)
  | devices | modules | standby | standbyFiles => List (List Char)
  | probeTimeouts | fenceRetries | consoleBaud => UInt32
  | resetDevices => Bool

def parse : (k : ConfigKey) → List Char → Except Int k.Value
  | name, value => if value = [] then .error (-EINVAL) else .ok value
  | cpus, value => setCpulist value
  | memory, value => parseSize value
  | kernel, value => .ok (setString value)
  | initrd, value => .ok (setString value)
  | cmdline, value => .ok (setString value)
  | machineCpus, value => setCpulist value
  | devices, value => setStrlist value
  | modules, value => setStrlist value
  | standby, value => setStrlist value
  | standbyFiles, value => setStrlist value
  | probeInterval, value => parseDurationMs value
  | probeTimeouts, value => setUint 1 value
  | fenceRetries, value => setUint 0 value
  | dump, value => .ok (setString value)
  | resetDevices, value => setBool value
  | console, value => .ok (setString value)
  | consoleBaud, value => setUint 1 value
  | consoleLogin, value => .ok (setString value)

def put : (k : ConfigKey) → k.Value → KmorphConfig → KmorphConfig
  | name, v, c => { c with name := v }
  | cpus, v, c => { c with cpus := v }
  | memory, v, c => { c with memory := v }
  | kernel, v, c => { c with kernel := v }
  | initrd, v, c => { c with initrd := v }
  | cmdline, v, c => { c with cmdline := v }
  | machineCpus, v, c => { c with machineCpus := v }
  | devices, v, c => { c with devices := v }
  | modules, v, c => { c with modules := v }
  | standby, v, c => { c with standby := v }
  | standbyFiles, v, c => { c with standbyFiles := v }
  | probeInterval, v, c => { c with probeIntervalMs := v }
  | probeTimeouts, v, c => { c with probeTimeouts := v }
  | fenceRetries, v, c => { c with fenceRetries := v }
  | dump, v, c => { c with dump := v }
  | resetDevices, v, c => { c with resetDevices := v }
  | console, v, c => { c with console := v }
  | consoleBaud, v, c => { c with consoleBaud := v }
  | consoleLogin, v, c => { c with consoleLogin := v }

end ConfigKey

/-- A value that is refused leaves a config that is freed. -/
def configSet (c : KmorphConfig) (key value : List Char) : Except Int KmorphConfig :=
  (ConfigKey.all.find? (·.text = key)).elim (.error (-ENOENT)) fun k =>
    (k.parse value).map fun v => k.put v c

def trim (s : List Char) : List Char := trimEnd (s.dropWhile isSpace)

abbrev ConfigError := Int × List Char

def lineError (lineno : ℕ) (text : List Char) : List Char :=
  "line ".toList ++ formatUnsigned lineno ++ ": ".toList ++ text

def setError (strerror : Int → List Char) (lineno : ℕ) (key : List Char) (ret : Int) : ConfigError :=
  (ret, lineError lineno
    (if ret = -ENOENT then "unknown key '".toList ++ key ++ "'".toList
    else "bad value for '".toList ++ key ++ "': ".toList ++ strerror (-ret)))

def configParseLine (strerror : Int → List Char) (c : KmorphConfig) (line : List Char) (lineno : ℕ) :
    Except ConfigError KmorphConfig :=
  let line := trim line
  if line = [] ∨ line.head? = some '#' then .ok c
  else if '=' ∉ line then .error (-EINVAL, lineError lineno "expected key = value".toList)
  else
    let key := trim (line.takeWhile (· ≠ '='))
    let value := trim (line.dropWhile (· ≠ '=')).tail
    (configSet c key value).mapError (setError strerror lineno key)

def configParseLines (strerror : Int → List Char) :
    ℕ → KmorphConfig → List (List Char) → Except ConfigError KmorphConfig
  | _, c, [] => .ok c
  | lineno, c, line :: rest =>
      (configParseLine strerror c line (lineno + 1)).bind fun c =>
        configParseLines strerror (lineno + 1) c rest

/-- The check over two fields, and the text that is kept. -/
def configFinish (text : List Char) (c : KmorphConfig) : Except ConfigError KmorphConfig :=
  if c.console.isSome ∧ c.consoleLogin.isNone then .error (-EINVAL, "console needs console_login".toList)
  else .ok { c with text := text }

def configParse (strerror : Int → List Char) (errlen : ℕ) (text : List Char) :
    Except ConfigError KmorphConfig :=
  ((configParseLines strerror 0 configDefaults (text.splitOn '\n')).bind (configFinish text)).mapError
    fun failed => (failed.1, failed.2.take (errlen - 1))

def configLoad (strerror : Int → List Char) (errlen : ℕ) (path : List Char)
    (file : Except Int (List Char)) : Except ConfigError KmorphConfig :=
  match file with
  | .error ret => .error (ret, (path ++ ": ".toList ++ strerror (-ret)).take (errlen - 1))
  | .ok bytes => configParse strerror errlen (cString (fileString bytes))

/-- `struct itimerspec`, with its times in seconds and nanoseconds. -/
structure Itimerspec where
  interval : UInt64 × UInt64
  value : UInt64 × UInt64
deriving Repr, DecidableEq

/-- What `open_timer` sets its timer to. -/
def openTimer (intervalMs : UInt64) : Itimerspec :=
  let interval := (intervalMs / 1000, intervalMs % 1000 * 1000000)
  ⟨interval, interval⟩

end Kmorph
