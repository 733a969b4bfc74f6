import Kmorph.MkfsCore
import Kmorph.Scanning
import Kmorph.UpgradeCore

/-!
What the files of the multikernel filesystem say: which transaction an overlay is
judged by, and which instances keep an upgrade from starting.
-/

namespace Kmorph

section Texts

theorem ne_of_isDigit {c d : Char} (digit : c.isDigit = true) (other : d.isDigit = false) : c ≠ d := by
  rintro rfl
  rw [digit] at other
  cases other

theorem formatUnsigned_noChar {d : Char} (other : d.isDigit = false) (n : ℕ) : d ∉ formatUnsigned n :=
  fun member => ne_of_isDigit (isDigit_formatUnsigned n d member) other rfl

theorem formatUnsigned_starts (n : ℕ) : (formatUnsigned n).head?.any Char.isDigit = true := by
  cases text : formatUnsigned n with
  | nil => exact absurd text (formatUnsigned_ne_nil n)
  | cons c rest =>
      rw [List.head?_cons, Option.any_some]
      exact isDigit_formatUnsigned n c (by rw [text]; exact List.mem_cons_self)

theorem fileReadString_line {text : List Char} (line : '\n' ∉ text) (noNul : '\x00' ∉ text) :
    fileReadString (.ok (text ++ ['\n'])) = .ok text := by
  rw [fileReadString, Except.map, fileString_line line, cString_of_plain noNul]

theorem fileReadU32_line {n : ℕ} (fits : n < 2 ^ 32) :
    fileReadU32 (.ok (formatUnsigned n ++ ['\n'])) = .ok (.ofNat n) := by
  rw [fileReadU32, fileReadString_line (formatUnsigned_noChar rfl n) (formatUnsigned_noChar rfl n)]
  simp only [bind, Except.bind, formatUnsigned_starts, strtoul_format (show n < 2 ^ 64 by omega), if_true]
  rw [if_pos ⟨trivial, by omega⟩]

theorem fileReadU32_errno {file : Except Int (List Char)} {ret : Int} (errno : ∀ {ret}, file = .error ret → ret < 0)
    (failed : fileReadU32 file = .error ret) : ret < 0 := by
  cases file with
  | error errno' =>
      cases failed
      exact errno rfl
  | ok text =>
      simp only [fileReadU32, fileReadString, Except.map, bind, Except.bind] at failed
      repeat' split at failed
      all_goals cases failed
      all_goals decide

end Texts

/-! Transactions. -/

section Transactions

variable {entries : List Name} {id : ℕ}

def txName (id : ℕ) : Name := "tx_".toList ++ formatUnsigned id

def IsTx (entry : Name) : Prop := "tx_".toList.isPrefixOf entry ∧ (entry.drop 3).head?.any Char.isDigit

/-- The directory has no other entries that look like transactions, and their numbers fit in an `int`. -/
def TxDirectory (entries : List Name) : Prop := ∀ entry ∈ entries, IsTx entry → ∃ id < 2 ^ 31, entry = txName id

theorem isTx_txName (id : ℕ) : IsTx (txName id) := by
  refine ⟨?_, formatUnsigned_starts id⟩
  rw [List.isPrefixOf_iff_prefix]
  exact List.prefix_append _ _

theorem txName_inj {id other : ℕ} (same : txName id = txName other) : id = other := by
  rw [← decimal_formatUnsigned id, ← decimal_formatUnsigned other, List.append_cancel_left same]

theorem latestTx_txName {latest : Int} (fits : id < 2 ^ 31) : latestTx latest (txName id) = max latest id := by
  have scanned := strtoll_digits (formatUnsigned_ne_nil id) (isDigit_formatUnsigned id) (stops_nil Char.isDigit)
    (by rw [decimal_formatUnsigned]; omega)
  rw [List.append_nil, decimal_formatUnsigned] at scanned
  have rest : (txName id).drop 3 = formatUnsigned id := rfl
  have tx : _ ∧ _ := isTx_txName id
  rw [latestTx, if_pos tx, rest, scanned]
  simp only [true_and]
  split
  · rw [Int.bmod_eq_of_le (by omega) (by omega)]
    omega
  · omega

theorem latestTx_fold (directory : TxDirectory entries) (latest : Int) :
    latest ≤ entries.foldl latestTx latest ∧ (∀ id, txName id ∈ entries → (id : Int) ≤ entries.foldl latestTx latest) ∧
      (entries.foldl latestTx latest = latest ∨ ∃ id, txName id ∈ entries ∧ entries.foldl latestTx latest = id) := by
  induction entries generalizing latest with
  | nil => exact ⟨le_refl _, nofun, .inl rfl⟩
  | cons entry entries ih =>
      obtain ⟨first, others⟩ := List.forall_mem_cons.mp directory
      obtain ⟨above, highest, which⟩ := ih others (latestTx latest entry)
      rw [List.foldl_cons]
      by_cases tx : IsTx entry
      · obtain ⟨id, fits, rfl⟩ := first tx
        rw [latestTx_txName fits] at above highest which ⊢
        refine ⟨by omega, ?_, ?_⟩
        · intro other member
          rcases List.mem_cons.mp member with same | later
          · have := txName_inj same
            omega
          · exact highest other later
        · rcases which with same | ⟨other, later, same⟩
          · rcases max_choice latest (id : Int) with kept | kept
            · exact .inl (same.trans kept)
            · exact .inr ⟨id, List.mem_cons_self, same.trans kept⟩
          · exact .inr ⟨other, List.mem_cons_of_mem _ later, same⟩
      · have passed : latestTx latest entry = latest := if_neg tx
        rw [passed] at above highest which ⊢
        refine ⟨above, ?_, ?_⟩
        · intro id member
          rcases List.mem_cons.mp member with rfl | later
          · exact absurd (isTx_txName id) tx
          · exact highest id later
        · exact which.imp_right fun ⟨id, later, same⟩ => ⟨id, List.mem_cons_of_mem _ later, same⟩

def Newest (entries : List Name) (last : ℕ) : Prop :=
  txName last ∈ entries ∧ ∀ id, txName id ∈ entries → id ≤ last

theorem Newest.latestTx {last : ℕ} (newest : Newest entries last) (directory : TxDirectory entries) :
    mkfsLatestTx (.ok entries) = last := by
  rw [mkfsLatestTx]
  obtain ⟨-, highest, which⟩ := latestTx_fold directory (-1)
  have reached := highest last newest.1
  rcases which with none | ⟨id, listed, same⟩
  · omega
  · have := newest.2 id listed
    omega

end Transactions

/-- An instance as its two files read; none of a file that cannot be read. -/
structure ShownInstance where
  name : Name
  id : Option ℕ
  status : Option (List Char)
  short : name.length ≤ NAME_MAX
  fits : ∀ n ∈ id, n < 2 ^ 32
  line : ∀ text ∈ status, '\n' ∉ text ∧ '\x00' ∉ text

namespace ShownInstance

def path (i : ShownInstance) (file : String) : List Char := "instances/".toList ++ i.name ++ '/' :: file.toList

def ReadsAs (file : Except Int (List Char)) : Option (List Char) → Prop
  | some text => file = .ok (text ++ ['\n'])
  | none => ∃ ret, file = .error ret

def Shown (files : MkfsFiles) (i : ShownInstance) : Prop :=
  ReadsAs (files.read (i.path "id")) (i.id.map formatUnsigned) ∧ ReadsAs (files.read (i.path "status")) i.status

/-- A kernel that runs, under a name that is not hidden; instance 0 is the host. -/
def RunsBeside (name : Name) (i : ShownInstance) : Prop :=
  i.name.head? ≠ some '.' ∧ i.name ≠ name ∧ (∃ id, i.id = some id ∧ id ≠ 0) ∧ i.status = some "active".toList

variable {files : MkfsFiles} {name : Name} {i : ShownInstance}

theorem instancePath_eq (i : ShownInstance) {file : String} (few : file.toList.length ≤ 6) :
    instancePath i.name file = i.path file := by
  have short := i.short
  refine List.take_of_length_le ?_
  simp only [List.length_append, List.length_cons, NAME_MAX] at short ⊢
  have : "instances/".toList.length = 10 := rfl
  omega

theorem Shown.id (shown : Shown files i) :
    mkfsInstanceId files i.name = (i.id.elim (mkfsInstanceId files i.name) fun n => .ok (.ofNat n)) ∧
      (i.id = none → ∃ ret, mkfsInstanceId files i.name = .error ret) := by
  have read := shown.1
  rw [← i.instancePath_eq (by decide)] at read
  cases known : i.id with
  | none =>
      rw [known] at read
      obtain ⟨ret, failed⟩ := read
      exact ⟨rfl, fun _ => ⟨ret, by rw [mkfsInstanceId, failed]; rfl⟩⟩
  | some n =>
      rw [known] at read
      refine ⟨?_, nofun⟩
      rw [mkfsInstanceId, show files.read _ = _ from read]
      exact fileReadU32_line (i.fits n known)

theorem take_eq_word {word text : List Char} {n : ℕ} (short : word.length < n) : text.take n = word ↔ text = word := by
  constructor
  · intro taken
    have length := congrArg List.length taken
    rw [List.length_take] at length
    rwa [List.take_of_length_le (by omega)] at taken
  · rintro rfl
    exact List.take_of_length_le short.le

theorem Shown.active (shown : Shown files i) :
    (∃ status, mkfsInstanceStatus files i.name 32 = .ok status ∧ status = "active".toList) ↔
      i.status = some "active".toList := by
  have read := shown.2
  rw [← i.instancePath_eq (by decide)] at read
  cases known : i.status with
  | none =>
      rw [known] at read
      obtain ⟨ret, failed⟩ := read
      rw [mkfsInstanceStatus, failed]
      simp [fileReadString, Except.map]
  | some text =>
      rw [known] at read
      obtain ⟨line, noNul⟩ := i.line text known
      rw [mkfsInstanceStatus, show files.read _ = _ from read, fileReadString_line line noNul]
      simp only [Except.map, Except.ok.injEq, exists_eq_left', Option.some.injEq]
      exact take_eq_word (by decide)

theorem Shown.runsBeside_iff (shown : Shown files i) : runsBeside files name i.name = true ↔ i.RunsBeside name := by
  rw [runsBeside, RunsBeside]
  by_cases passed : i.name.head? = some '.' ∨ i.name = name
  · rw [if_pos passed]
    refine iff_of_false Bool.false_ne_true ?_
    rintro ⟨visible, different, -⟩
    exact passed.elim visible different
  · obtain ⟨visible, different⟩ := not_or.mp passed
    rw [if_neg passed]
    cases known : i.id with
    | none =>
        obtain ⟨ret, failed⟩ := shown.id.2 known
        rw [failed]
        simp
    | some n =>
        have number := shown.id.1
        have fits := i.fits n known
        rw [known] at number
        have zero : UInt32.ofNat n = 0 ↔ n = 0 := by
          rw [← UInt32.toNat_inj, UInt32.toNat_ofNat', UInt32.toNat_zero]
          omega
        rw [number]
        simp only [Option.elim_some, zero]
        by_cases host : n = 0
        · simp [host]
        · rw [if_neg host, ← shown.active]
          cases mkfsInstanceStatus files i.name 32 with
          | error ret => simp
          | ok status => simp [visible, different, host]

end ShownInstance

open ShownInstance in
/-- `kmorph upgrade` is refused, with nothing frozen, exactly while another instance runs: the one that
is named runs, in whatever order the directory comes. An instance whose files cannot be read does not
count. -/
theorem mkfsOtherRunning_refuses {σ : Type} (name : Name) (files : MkfsFiles) (instances : List ShownInstance)
    (shown : ∀ i ∈ instances, i.Shown files) (listed : List Name)
    (lists : listed.Perm ([".".toList, "..".toList] ++ instances.map ShownInstance.name)) (p : Preparation)
    (armed : p.instanceId = 0) (asked : p.otherRunning = (mkfsOtherRunning (.ok listed) files name 64).1)
    (s : Upgrade σ) :
    (∃ i ∈ instances, i.RunsBeside name ∧ mkfsOtherRunning (.ok listed) files name 64 = (1, some (i.name.take 63)) ∧
        prepare p s = { s with client := .returned (-EBUSY) }) ∨
      mkfsOtherRunning (.ok listed) files name 64 = (0, none) ∧ ∀ i ∈ instances, ¬ i.RunsBeside name := by
  cases search : listed.find? (runsBeside files name) with
  | some entry =>
      have found := List.find?_some search
      have member := lists.subset (List.mem_of_find?_eq_some search)
      have out : mkfsOtherRunning (.ok listed) files name 64 = (1, some (entry.take 63)) := by
        simp only [mkfsOtherRunning, search]
      rcases List.mem_append.mp member with dots | inside
      · simp only [List.mem_cons, List.not_mem_nil, or_false] at dots
        rcases dots with rfl | rfl <;> simp [runsBeside] at found
      · obtain ⟨i, there, rfl⟩ := List.mem_map.mp inside
        refine .inl ⟨i, there, (shown i there).runsBeside_iff.mp found, out, ?_⟩
        rw [out] at asked
        rw [prepare, if_neg (not_not.mpr armed), if_pos (by omega)]
  | none =>
      refine .inr ⟨by simp only [mkfsOtherRunning, search], fun i inside runs => ?_⟩
      have listed := lists.symm.subset (List.mem_append_right _ (List.mem_map_of_mem inside))
      exact List.find?_eq_none.mp search _ listed ((shown i inside).runsBeside_iff.mpr runs)

def sampleInstances : List ShownInstance :=
  [⟨"lost".toList, none, none, by decide, nofun, nofun⟩,
    ⟨"guest".toList, some 7, some "active".toList, by decide, by simp, by simp⟩,
    ⟨"successor".toList, some 3, some "active".toList, by decide, by simp, by simp⟩]

def sampleShown : MkfsFiles where
  read := fun path =>
    if path = "instances/guest/id".toList then .ok "7\n".toList
    else if path = "instances/successor/id".toList then .ok "3\n".toList
    else if path = "instances/guest/status".toList ∨ path = "instances/successor/status".toList then
      .ok "active\n".toList
    else .error (-ENOENT)
  errno := by
    intro path ret failed
    repeat' split at failed
    all_goals cases failed
    decide

def sampleUpgrade : Preparation where
  instanceId := 0
  otherRunning := 1
  collected := .ok ["/".toList]
  freeze := fun _ => 0
  thaw := fun _ => 0

theorem mkfsOtherRunning_refuses_guest :
    (∃ i ∈ sampleInstances, i.RunsBeside "successor".toList ∧ i.name = "guest".toList) ∧
      prepare sampleUpgrade (upgradeInit (daemonInit () 3 0)) =
        { upgradeInit (daemonInit () 3 0) with client := .returned (-EBUSY) } := by
  have shown : ∀ i ∈ sampleInstances, i.Shown sampleShown := by
    intro i member
    simp only [sampleInstances, List.mem_cons, List.not_mem_nil, or_false] at member
    rcases member with rfl | rfl | rfl
    · exact ⟨⟨-ENOENT, rfl⟩, ⟨-ENOENT, rfl⟩⟩
    · exact ⟨rfl, rfl⟩
    · exact ⟨rfl, rfl⟩
  have lists : ["successor".toList, ".".toList, "guest".toList, "..".toList, "lost".toList].Perm
      ([".".toList, "..".toList] ++ sampleInstances.map ShownInstance.name) := by decide
  have guest := (show "guest".toList.head? ≠ some '.' by decide)
  rcases mkfsOtherRunning_refuses "successor".toList sampleShown sampleInstances shown _ lists sampleUpgrade rfl
    (by decide +kernel) (upgradeInit (daemonInit () 3 0)) with ⟨i, inside, runs, out, refused⟩ | ⟨-, alone⟩
  · refine ⟨⟨i, inside, runs, ?_⟩, refused⟩
    simp only [sampleInstances, List.mem_cons, List.not_mem_nil, or_false] at inside
    rcases inside with rfl | rfl | rfl
    · exact absurd runs.2.2.2 (by decide)
    · rfl
    · exact absurd rfl runs.2.1
  · exact absurd ⟨guest, by decide, ⟨7, rfl, by decide⟩, rfl⟩ (alone _ (List.mem_cons_of_mem _ List.mem_cons_self))

end Kmorph
