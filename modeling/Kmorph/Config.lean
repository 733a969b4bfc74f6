import Kmorph.ConfigCore
import Kmorph.Fallible
import Kmorph.Parse

/-!
What a config text means. Each line that is not blank or a comment sets the field
of its key and no other, so that the last line for a key decides; the texts that are
accepted are those all of whose lines are, whatever their order.
-/

namespace Kmorph

open Fallible

namespace ConfigKey

def get : (k : ConfigKey) → KmorphConfig → k.Value
  | name, c => c.name
  | cpus, c => c.cpus
  | memory, c => c.memory
  | kernel, c => c.kernel
  | initrd, c => c.initrd
  | cmdline, c => c.cmdline
  | machineCpus, c => c.machineCpus
  | devices, c => c.devices
  | modules, c => c.modules
  | standby, c => c.standby
  | standbyFiles, c => c.standbyFiles
  | probeInterval, c => c.probeIntervalMs
  | probeTimeouts, c => c.probeTimeouts
  | fenceRetries, c => c.fenceRetries
  | dump, c => c.dump
  | resetDevices, c => c.resetDevices
  | console, c => c.console
  | consoleBaud, c => c.consoleBaud
  | consoleLogin, c => c.consoleLogin

theorem get_put (k : ConfigKey) (v : k.Value) (c : KmorphConfig) : k.get (k.put v c) = v := by
  cases k <;> rfl

theorem get_put_of_ne {k other : ConfigKey} (apart : other ≠ k) (v : k.Value) (c : KmorphConfig) :
    other.get (k.put v c) = other.get c := by
  cases k <;> cases other <;> first | rfl | exact absurd rfl apart

theorem text_injective {k other : ConfigKey} (same : k.text = other.text) : k = other := by
  have distinct : (all.map text).Nodup := by decide +kernel
  have complete (k : ConfigKey) : k ∈ all := by cases k <;> decide
  exact List.inj_on_of_nodup_map distinct (complete k) (complete other) same

theorem find_all {k : ConfigKey} {key : List Char} :
    all.find? (·.text = key) = some k ↔ k.text = key := by
  constructor
  · intro found
    simpa using List.find?_some found
  · rintro rfl
    cases found : all.find? (·.text = k.text) with
    | none =>
        have complete : k ∈ all := by cases k <;> decide
        have missed := List.find?_eq_none.mp found k complete
        simp at missed
    | some other =>
        have same : other.text = k.text := by simpa using List.find?_some found
        rw [text_injective same]

end ConfigKey

theorem KmorphConfig.ext_get {c d : KmorphConfig} (fields : ∀ k : ConfigKey, k.get c = k.get d) :
    { c with text := d.text } = d := by
  obtain ⟨⟩ := c
  obtain ⟨⟩ := d
  simp only [KmorphConfig.mk.injEq, and_true]
  exact ⟨fields .name, fields .cpus, fields .memory, fields .kernel, fields .initrd, fields .cmdline,
    fields .devices, fields .machineCpus, fields .modules, fields .standby, fields .standbyFiles,
    fields .probeInterval, fields .probeTimeouts, fields .fenceRetries, fields .dump,
    fields .resetDevices, fields .console, fields .consoleBaud, fields .consoleLogin⟩

def isSetting (line : List Char) : Bool := line ≠ [] ∧ line.head? ≠ some '#'

/-- The lines that set something, without the white space around them. -/
def settings (lines : List (List Char)) : List (List Char) := (lines.map trim).filter isSetting

def lineKey (line : List Char) : List Char := trim (line.takeWhile (· ≠ '='))
def lineValue (line : List Char) : List Char := trim (line.dropWhile (· ≠ '=')).tail

def assigns (key line : List Char) : Bool := '=' ∈ line ∧ lineKey line = key

def lastValue (lines : List (List Char)) (k : ConfigKey) : Option (List Char) :=
  ((settings lines).filter (assigns k.text)).getLast?.map lineValue

structure Sets (line : List Char) (k : ConfigKey) (v : k.Value) : Prop where
  assigned : assigns k.text line = true
  value : k.parse (lineValue line) = .ok v

section Lines

variable {strerror : Int → List Char} {c c' : KmorphConfig} {line : List Char} {lineno : ℕ}
  {lines rest : List (List Char)}

theorem settings_cons : settings (line :: rest) =
    if isSetting (trim line) then trim line :: settings rest else settings rest := by
  rw [settings, List.map_cons, List.filter_cons]
  rfl

theorem settings_append (lines rest : List (List Char)) :
    settings (lines ++ rest) = settings lines ++ settings rest := by
  rw [settings, List.map_append, List.filter_append]
  rfl

theorem lastValue_of_setting {k : ConfigKey} (setting : isSetting (trim line) = true) :
    lastValue (line :: rest) k =
      (lastValue rest k).or (if assigns k.text (trim line) then some (lineValue (trim line)) else none) := by
  rw [lastValue, settings_cons, if_pos setting, List.filter_cons]
  by_cases key : assigns k.text (trim line)
  · rw [if_pos key, if_pos key, List.getLast?_cons, lastValue]
    cases ((settings rest).filter (assigns k.text)).getLast? with
    | none => rfl
    | some last => rfl
  · rw [if_neg key, if_neg key, Option.or_none]
    rfl

theorem lastValue_of_blank {k : ConfigKey} (blank : ¬ isSetting (trim line) = true) :
    lastValue (line :: rest) k = lastValue rest k := by
  rw [lastValue, settings_cons, if_neg blank, lastValue]

theorem Sets.assigns_iff {k other : ConfigKey} {v : k.Value} (sets : Sets line k v) :
    assigns other.text line = true ↔ other = k := by
  obtain ⟨-, key⟩ := of_decide_eq_true sets.assigned
  constructor
  · intro assigned
    obtain ⟨-, same⟩ := of_decide_eq_true assigned
    exact ConfigKey.text_injective (same.symm.trans key)
  · rintro rfl
    exact sets.assigned

theorem configSet_ok {key value : List Char} :
    configSet c key value = .ok c' ↔
      ∃ (k : ConfigKey) (v : k.Value), key = k.text ∧ k.parse value = .ok v ∧ c' = k.put v c := by
  unfold configSet
  cases found : ConfigKey.all.find? (·.text = key) with
  | none =>
      constructor
      · intro set
        cases set
      · rintro ⟨k, v, rfl, -⟩
        rw [ConfigKey.find_all.mpr rfl] at found
        cases found
  | some k =>
      have isKey := ConfigKey.find_all.mp found
      subst isKey
      rw [Option.elim_some]
      constructor
      · intro set
        cases parsed : k.parse value with
        | error ret =>
            rw [parsed] at set
            cases set
        | ok v =>
            rw [parsed] at set
            cases set
            exact ⟨k, v, rfl, parsed, rfl⟩
      · rintro ⟨other, v, same, parsed, rfl⟩
        obtain rfl := ConfigKey.text_injective same
        rw [parsed]
        rfl

/-- What a line does that is accepted: it sets a field, or nothing. -/
theorem configParseLine_ok :
    configParseLine strerror c line lineno = .ok c' ↔
      if isSetting (trim line) then ∃ k v, Sets (trim line) k v ∧ c' = k.put v c else c' = c := by
  rw [configParseLine]
  by_cases blank : trim line = [] ∨ (trim line).head? = some '#'
  · have none : isSetting (trim line) = false := by
      simp only [isSetting, decide_eq_false_iff_not]
      tauto
    simp only [blank, none, if_true, Except.ok.injEq, Bool.false_eq_true, if_false]
    exact eq_comm
  · have setting : isSetting (trim line) = true := by
      simp only [isSetting, decide_eq_true_eq]
      tauto
    simp only [blank, setting, if_true, if_false]
    by_cases assigned : '=' ∈ trim line
    · rw [if_neg (not_not.mpr assigned), mapError_eq_ok, configSet_ok]
      constructor
      · rintro ⟨k, v, key, value, rfl⟩
        exact ⟨k, v, ⟨decide_eq_true ⟨assigned, key⟩, value⟩, rfl⟩
      · rintro ⟨k, v, sets, rfl⟩
        exact ⟨k, v, (of_decide_eq_true sets.assigned).2, sets.value, rfl⟩
    · rw [if_pos assigned]
      constructor
      · intro failed
        cases failed
      · rintro ⟨k, v, sets, -⟩
        exact absurd (of_decide_eq_true sets.assigned).1 assigned

/-- The values of a config, with `before` for what the lines say nothing about. -/
def Decided (before c : KmorphConfig) (lines : List (List Char)) : Prop :=
  ∀ k : ConfigKey, (lastValue lines k = none → k.get c = k.get before) ∧
    ∀ value, lastValue lines k = some value → k.parse value = .ok (k.get c)

theorem decided_nil : Decided c c [] := by
  intro k
  refine ⟨fun _ => rfl, fun value last => ?_⟩
  simp [lastValue, settings] at last

theorem Decided.blank (blank : ¬ isSetting (trim line) = true) (decided : Decided c c' rest) :
    Decided c c' (line :: rest) := by
  intro k
  rw [lastValue_of_blank blank]
  exact decided k

/-- A line decides its field where no later line does. -/
theorem Decided.setting {k : ConfigKey} {v : k.Value} (setting : isSetting (trim line) = true)
    (sets : Sets (trim line) k v) (decided : Decided (k.put v c) c' rest) : Decided c c' (line :: rest) := by
  intro other
  rw [lastValue_of_setting setting]
  by_cases same : other = k
  · subst same
    rw [if_pos sets.assigned]
    cases last : lastValue rest other with
    | none =>
        refine ⟨by simp, ?_⟩
        intro value only
        cases only
        rw [sets.value, (decided other).1 last, ConfigKey.get_put]
    | some later => exact ⟨by simp, fun value only => (decided other).2 value (last.trans only)⟩
  · rw [if_neg (sets.assigns_iff.not.mpr same), Option.or_none, ← ConfigKey.get_put_of_ne same v c]
    exact decided other

theorem configParseLines_ok (parsed : configParseLines strerror lineno c lines = .ok c') :
    (∀ line ∈ settings lines, ∃ k v, Sets line k v) ∧ Decided c c' lines := by
  induction lines generalizing c lineno with
  | nil =>
      cases parsed
      exact ⟨by simp [settings], decided_nil⟩
  | cons line rest ih =>
      obtain ⟨next, first, parsed⟩ := bind_eq_ok.mp parsed
      obtain ⟨sets, decided⟩ := ih parsed
      rw [configParseLine_ok] at first
      rw [settings_cons]
      split at first
      · rename_i setting
        obtain ⟨k, v, setsLine, rfl⟩ := first
        rw [if_pos setting]
        exact ⟨List.forall_mem_cons.mpr ⟨⟨k, v, setsLine⟩, sets⟩, decided.setting setting setsLine⟩
      · rename_i blank
        subst first
        rw [if_neg blank]
        exact ⟨sets, decided.blank blank⟩

theorem configParseLines_accepts (sets : ∀ line ∈ settings lines, ∃ k v, Sets line k v) :
    ∃ c', configParseLines strerror lineno c lines = .ok c' := by
  induction lines generalizing c lineno with
  | nil => exact ⟨c, rfl⟩
  | cons line rest ih =>
      rw [settings_cons] at sets
      have first : ∃ next, configParseLine strerror c line (lineno + 1) = .ok next := by
        by_cases setting : isSetting (trim line) = true
        · rw [if_pos setting] at sets
          obtain ⟨k, v, setsLine⟩ := sets _ List.mem_cons_self
          refine ⟨k.put v c, configParseLine_ok.mpr ?_⟩
          rw [if_pos setting]
          exact ⟨k, v, setsLine, rfl⟩
        · refine ⟨c, configParseLine_ok.mpr ?_⟩
          rw [if_neg setting]
      obtain ⟨next, first⟩ := first
      rw [configParseLines, first]
      apply ih
      intro line member
      apply sets
      split
      · exact List.mem_cons_of_mem _ member
      · exact member

theorem Decided.get_eq {before d : KmorphConfig} (decided : Decided before c lines)
    (other : Decided before d lines) (k : ConfigKey) : k.get c = k.get d := by
  cases last : lastValue lines k with
  | none => rw [(decided k).1 last, (other k).1 last]
  | some value => exact Except.ok.inj (((decided k).2 value last).symm.trans ((other k).2 value last))

end Lines

section Texts

variable {strerror : Int → List Char} {errlen : ℕ} {text other : List Char} {c : KmorphConfig}

def HasLogin (c : KmorphConfig) : Prop := c.console.isSome → c.consoleLogin.isSome

theorem configParse_eq_ok : configParse strerror errlen text = .ok c ↔
    ∃ d, configParseLines strerror 0 configDefaults (text.splitOn '\n') = .ok d ∧ HasLogin d ∧
      c = { d with text := text } := by
  rw [configParse, mapError_eq_ok]
  refine bind_eq_ok.trans (exists_congr fun d => and_congr_right fun _ => ?_)
  rw [configFinish, HasLogin]
  split
  · rename_i refused
    obtain ⟨console, login⟩ := refused
    simp [console, Option.isNone_iff_eq_none.mp login]
  · rename_i accepted
    have login : d.console.isSome → d.consoleLogin.isSome := by
      intro console
      by_contra missing
      exact accepted ⟨console, by simpa using missing⟩
    rw [Except.ok.injEq, and_iff_right login]
    exact eq_comm

theorem configParse_ok (parsed : configParse strerror errlen text = .ok c) :
    (∀ line ∈ settings (text.splitOn '\n'), ∃ k v, Sets line k v) ∧
      Decided configDefaults c (text.splitOn '\n') ∧ HasLogin c ∧ c.text = text := by
  obtain ⟨d, lines, login, rfl⟩ := configParse_eq_ok.mp parsed
  obtain ⟨sets, decided⟩ := configParseLines_ok lines
  have fields (k : ConfigKey) : k.get { d with text := text } = k.get d := by cases k <;> rfl
  refine ⟨sets, fun k => ?_, login, rfl⟩
  rw [fields]
  exact decided k

/-- Two texts that set the same, in an order that may differ between lines of different keys. -/
structure SameSettings (lines other : List (List Char)) : Prop where
  perm : (settings lines).Perm (settings other)
  ordered : ∀ key, (settings lines).filter (assigns key) = (settings other).filter (assigns key)

theorem SameSettings.symm {lines other : List (List Char)} (same : SameSettings lines other) :
    SameSettings other lines := ⟨same.perm.symm, fun key => (same.ordered key).symm⟩

theorem configParse_same (same : SameSettings (text.splitOn '\n') (other.splitOn '\n'))
    (parsed : configParse strerror errlen text = .ok c) :
    configParse strerror errlen other = .ok { c with text := other } := by
  obtain ⟨sets, decided, login, -⟩ := configParse_ok parsed
  obtain ⟨d, lines⟩ := @configParseLines_accepts strerror configDefaults 0 (other.splitOn '\n')
    fun line member => sets line (same.perm.mem_iff.mpr member)
  have decidedOther : Decided configDefaults d (text.splitOn '\n') := by
    intro k
    rw [lastValue, same.ordered]
    exact (configParseLines_ok lines).2 k
  have fields := KmorphConfig.ext_get (decided.get_eq decidedOther)
  rw [configParse_eq_ok]
  refine ⟨d, lines, ?_, ?_⟩
  · rw [← fields]
    exact login
  · rw [← fields]

theorem settings_newlines (text : List Char) (n : ℕ) :
    settings ((text ++ List.replicate n '\n').splitOn '\n') = settings (text.splitOn '\n') := by
  have blank : settings (List.replicate n []) = [] := by
    induction n with
    | zero => rfl
    | succ n ih => rw [List.replicate_succ, settings_cons, ih, if_neg (by decide)]
  rw [splitOn_newlines, settings_append, blank, List.append_nil]

theorem sameSettings_newlines (text : List Char) (n : ℕ) :
    SameSettings (text.splitOn '\n') ((text ++ List.replicate n '\n').splitOn '\n') := by
  constructor
  · rw [settings_newlines]
  · intro key
    rw [settings_newlines]

end Texts

/-- The order of lines for different keys does not matter, the last line for a key decides, and
neither do newlines at the end of the text that is kept. -/
theorem configParse_settings (strerror : Int → List Char) (errlen : ℕ) (text other : List Char) :
    (SameSettings (text.splitOn '\n') (other.splitOn '\n') →
      ((∃ c, configParse strerror errlen text = .ok c) ↔ ∃ d, configParse strerror errlen other = .ok d) ∧
      ∀ c d, configParse strerror errlen text = .ok c → configParse strerror errlen other = .ok d →
        { c with text := d.text } = d) ∧
    ∀ c, configParse strerror errlen text = .ok c →
      Decided configDefaults c (text.splitOn '\n') ∧ configParse strerror errlen c.text = .ok c ∧
      (∀ kept n, c.text = kept ++ List.replicate n '\n' ∨ kept = c.text ++ List.replicate n '\n' →
        configParse strerror errlen kept = .ok { c with text := kept }) ∧
      ('\x00' ∉ text → ∀ path, configLoad strerror errlen path (.ok c.text) =
        .ok { c with text := fileString c.text }) := by
  constructor
  · intro same
    refine ⟨⟨?_, ?_⟩, ?_⟩
    · rintro ⟨c, parsed⟩
      exact ⟨_, configParse_same same parsed⟩
    · rintro ⟨d, parsed⟩
      exact ⟨_, configParse_same same.symm parsed⟩
    · intro c d parsed parsedOther
      obtain rfl := Except.ok.inj ((configParse_same same parsed).symm.trans parsedOther)
      rfl
  · intro c parsed
    obtain ⟨-, decided, -, rfl⟩ := configParse_ok parsed
    refine ⟨decided, parsed, ?_, ?_⟩
    · rintro kept n (longer | rfl)
      · apply configParse_same _ parsed
        rw [longer]
        exact (sameSettings_newlines kept n).symm
      · exact configParse_same (sameSettings_newlines c.text n) parsed
    · intro noNul path
      obtain ⟨n, whole⟩ := fileString_newlines c.text
      have plain : '\x00' ∉ fileString c.text := by
        intro member
        apply noNul
        rw [whole]
        exact List.mem_append_left _ member
      show configParse strerror errlen (cString (fileString c.text)) = _
      rw [cString_of_plain plain]
      apply configParse_same _ parsed
      nth_rewrite 1 [whole]
      exact (sameSettings_newlines _ n).symm

/-- Two keys in either order, with a comment and a blank line between them. -/
theorem configParse_settings_swapped :
    let text := "memory = 1G
probe_interval = 2s".toList
    let other := "probe_interval = 2s
# size

memory = 1G".toList
    SameSettings (text.splitOn '
') (other.splitOn '
') ∧
      ∃ c d, configParse (fun _ => []) 64 text = .ok c ∧ configParse (fun _ => []) 64 other = .ok d ∧
        c.memory = 0x40000000 ∧ { c with text := d.text } = d := by
  intro text other
  have first : settings (text.splitOn '
') = ["memory = 1G".toList, "probe_interval = 2s".toList] := by decide +kernel
  have second : settings (other.splitOn '
') = ["probe_interval = 2s".toList, "memory = 1G".toList] := by
    decide +kernel
  have same : SameSettings (text.splitOn '
') (other.splitOn '
') := by
    constructor
    · rw [first, second]
      decide
    · intro key
      rw [first, second]
      cases memory : assigns key "memory = 1G".toList with
      | false => simp only [List.filter_cons, memory, Bool.false_eq_true, if_false, List.filter_nil]
      | true =>
          have isMemory : lineKey "memory = 1G".toList = key := (of_decide_eq_true memory).2
          subst isMemory
          decide +kernel
  have parsed : configParse (fun _ => []) 64 text = .ok { configDefaults with
    memory := 0x40000000, probeIntervalMs := 2000, text := text } := by rfl
  obtain ⟨agree, -⟩ := configParse_settings (fun _ => []) 64 text other
  obtain ⟨both, fields⟩ := agree same
  obtain ⟨d, parsedOther⟩ := both.mp ⟨_, parsed⟩
  exact ⟨same, _, d, parsed, parsedOther, rfl, fields _ d parsed parsedOther⟩

section Runs

variable {strerror : Int → List Char} {errlen : ℕ} {text : List Char} {before c : KmorphConfig}
  {lines : List (List Char)}

/-- The timer goes off, and again after each interval. -/
def Itimerspec.Periodic (its : Itimerspec) : Prop := its.value ≠ (0, 0) ∧ its.interval ≠ (0, 0)

/-- A config the daemon can run with. -/
structure CanRun (c : KmorphConfig) : Prop where
  name : c.name ≠ []
  cpus : c.cpus.Pairwise (· < ·)
  machineCpus : c.machineCpus.Pairwise (· < ·)
  devices : ∀ item ∈ c.devices, IsItem item
  modules : ∀ item ∈ c.modules, IsItem item
  standby : ∀ item ∈ c.standby, IsItem item
  standbyFiles : ∀ item ∈ c.standbyFiles, IsItem item
  login : c.console.isSome → c.consoleLogin.isSome
  probeTimeouts : 1 ≤ c.probeTimeouts
  consoleBaud : 1 ≤ c.consoleBaud
  probeInterval : 1 ≤ c.probeIntervalMs
  timer : (openTimer c.probeIntervalMs).Periodic

theorem uint64_pos {ms : UInt64} : 1 ≤ ms ↔ ms ≠ 0 := by
  rw [UInt64.le_iff_toNat_le, ne_eq, ← UInt64.toNat_inj]
  exact Nat.one_le_iff_ne_zero

theorem seconds_eq_zero {ms : UInt64} : (ms / 1000 = 0 ∧ ms % 1000 * 1000000 = 0) ↔ ms = 0 := by
  have seconds : ms / 1000 = 0 ↔ ms.toNat / 1000 = 0 := by
    rw [← UInt64.toNat_inj, UInt64.toNat_div]
    exact Iff.rfl
  have nanoseconds : ms % 1000 * 1000000 = 0 ↔ ms.toNat % 1000 = 0 := by
    have small := Nat.mod_lt ms.toNat (show 1000 > 0 by decide)
    rw [← UInt64.toNat_inj, UInt64.toNat_mul, UInt64.toNat_mod]
    show ms.toNat % 1000 * 1000000 % 2 ^ 64 = 0 ↔ _
    rw [Nat.mod_eq_of_lt (by omega), Nat.mul_eq_zero]
    exact or_iff_left (by decide)
  rw [seconds, nanoseconds, ← UInt64.toNat_inj]
  show _ ↔ ms.toNat = 0
  generalize ms.toNat = n
  omega

theorem openTimer_periodic {ms : UInt64} : (openTimer ms).Periodic ↔ 1 ≤ ms := by
  rw [Itimerspec.Periodic, openTimer, and_self, ne_eq, Prod.mk.injEq, seconds_eq_zero, uint64_pos]

/-- What the default of a key has and every value it accepts has, its field has. -/
theorem Decided.holds (decided : Decided before c lines) (k : ConfigKey) (P : k.Value → Prop)
    (default : P (k.get before)) (parsed : ∀ value v, k.parse value = .ok v → P v) : P (k.get c) := by
  cases last : lastValue lines k with
  | none =>
      rw [(decided k).1 last]
      exact default
  | some value => exact parsed value _ ((decided k).2 value last)

theorem setList_ok {α : Type} {parse : List Char → Int × List α} {value : List Char} {l : List α}
    {P : List α → Prop} (empty : P []) (all : P (parse value).2) (set : setList parse value = .ok l) :
    P l := by
  simp only [setList] at set
  split at set
  · cases set
    exact empty
  · split at set
    · cases set
      exact all
    · cases set

theorem setUint_ok {min : ℕ} {value : List Char} {v : UInt32} (set : setUint min value = .ok v) :
    min ≤ v.toNat := by
  simp only [setUint] at set
  split at set
  · split at set
    · cases set
    · rename_i fits
      cases set
      rw [UInt32.toNat_ofNat', Nat.mod_eq_of_lt (by omega)]
      omega
  · cases set

theorem setName_ok (value v : List Char) (set : ConfigKey.name.parse value = .ok v) : v ≠ [] := by
  simp only [ConfigKey.parse] at set
  split at set
  · cases set
  · rename_i found
    cases set
    exact found

theorem Decided.probeInterval (decided : Decided configDefaults c lines) :
    1 ≤ c.probeIntervalMs ↔
      ∀ value, lastValue lines .probeInterval = some value → decimal (value.takeWhile Char.isDigit) ≠ 0 := by
  rw [uint64_pos]
  cases last : lastValue lines .probeInterval with
  | none =>
      have default : c.probeIntervalMs = 100 := (decided .probeInterval).1 last
      simp [default]
  | some value =>
      have zero := parseDurationMs_eq_zero ((decided .probeInterval).2 value last)
      simp only [Option.some.injEq, forall_eq']
      exact zero.not

theorem Decided.cpulist (decided : Decided configDefaults c lines) :
    c.cpus.Pairwise (· < ·) ∧ c.machineCpus.Pairwise (· < ·) := by
  have sorted (value : List Char) (l : List UInt64) : setCpulist value = .ok l → l.Pairwise (· < ·) :=
    setList_ok List.Pairwise.nil parseCpulist_sorted
  exact ⟨decided.holds .cpus (List.Pairwise (· < ·)) List.Pairwise.nil sorted,
    decided.holds .machineCpus (List.Pairwise (· < ·)) List.Pairwise.nil sorted⟩

end Runs

/-- What is accepted can run, unless the last interval is zero. -/
theorem configParse_canRun {strerror : Int → List Char} {errlen : ℕ} {text : List Char}
    {c : KmorphConfig} (parsed : configParse strerror errlen text = .ok c) :
    CanRun c ↔ ∀ value, lastValue (text.splitOn '\n') .probeInterval = some value →
      decimal (value.takeWhile Char.isDigit) ≠ 0 := by
  obtain ⟨-, decided, login, -⟩ := configParse_ok parsed
  rw [← decided.probeInterval]
  constructor
  · intro runs
    exact runs.probeInterval
  · intro interval
    have items (value : List Char) (l : List (List Char)) :
        setStrlist value = .ok l → ∀ item ∈ l, IsItem item :=
      @setList_ok _ _ value l (∀ item ∈ ·, IsItem item) (by simp) parseStrlist_items
    exact {
      name := decided.holds .name (· ≠ []) (by decide) setName_ok
      cpus := decided.cpulist.1
      machineCpus := decided.cpulist.2
      devices := decided.holds .devices (∀ item ∈ ·, IsItem item) (List.forall_mem_nil _) items
      modules := decided.holds .modules (∀ item ∈ ·, IsItem item) (List.forall_mem_nil _) items
      standby := decided.holds .standby (∀ item ∈ ·, IsItem item) (List.forall_mem_nil _) items
      standbyFiles := decided.holds .standbyFiles (∀ item ∈ ·, IsItem item) (List.forall_mem_nil _) items
      login := login
      probeTimeouts := decided.holds .probeTimeouts (1 ≤ ·) (by decide) fun value v set =>
        UInt32.le_iff_toNat_le.mpr (setUint_ok set)
      consoleBaud := decided.holds .consoleBaud (1 ≤ ·) (by decide) fun value v set =>
        UInt32.le_iff_toNat_le.mpr (setUint_ok set)
      probeInterval := interval
      timer := openTimer_periodic.mpr interval }

theorem configParse_zeroInterval :
    configParse (fun _ => []) 128 "probe_interval = 0".toList =
        .ok { configDefaults with probeIntervalMs := 0, text := "probe_interval = 0".toList } ∧
      ¬ CanRun { configDefaults with probeIntervalMs := 0, text := "probe_interval = 0".toList } := by
  refine ⟨by rfl, fun runs => ?_⟩
  exact absurd runs.probeInterval (by decide)

theorem configParse_quarterSecond :
    CanRun { configDefaults with probeIntervalMs := 250, text := "probe_interval = 250ms".toList } := by
  have parsed : configParse (fun _ => []) 128 "probe_interval = 250ms".toList =
      .ok { configDefaults with probeIntervalMs := 250, text := "probe_interval = 250ms".toList } := by rfl
  apply (configParse_canRun parsed).mpr
  have last : lastValue ("probe_interval = 250ms".toList.splitOn '\n') .probeInterval =
      some "250ms".toList := by decide +kernel
  intro value isLast
  obtain rfl := Option.some.inj (last.symm.trans isLast)
  decide +kernel

end Kmorph
