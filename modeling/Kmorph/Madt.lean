import Kmorph.Chunks
import Kmorph.MadtCore
import Kmorph.Records

/-!
What `madt_read_cpus` makes of a table, against what the table says. The entries
are the chunks their length bytes delimit; the walk fails where a rest of two bytes
or more is left.
-/

namespace Kmorph

open Chunks Records

def entryField (entry : List UInt8) (off width : ℕ) : ℕ := decodeField ((entry.drop off).take width)

/-- A type of entry that describes a CPU: the length it needs, where its flags are, the flag of a
CPU that can be brought online, and the id. -/
structure CpuKind where
  type : ℕ
  long : ℕ
  flags : ℕ
  online : ℕ
  id : List UInt8 → ℕ

/-- Local APIC, x2APIC and GICC entries; the id of the last is the affinity of its MPIDR. -/
def cpuKinds : List CpuKind :=
  [⟨0, 8, 4, 1, fun entry => entryField entry 3 1⟩,
    ⟨9, 12, 8, 1, fun entry => entryField entry 4 4⟩,
    ⟨0x0b, 76, 12, 3, fun entry => entryField entry 68 8 &&& 0xff00ffffff⟩]

/-- An entry that describes a CPU which is enabled or can be brought online, by its id. -/
def IsCpu (entry : List UInt8) (id : ℕ) : Prop :=
  ∃ kind ∈ cpuKinds, entryField entry 0 1 = kind.type ∧ kind.long ≤ entry.length ∧
    ((entryField entry kind.flags 4).testBit 0 ∨ (entryField entry kind.flags 4).testBit kind.online) ∧
    id = kind.id entry

def entrySpan (buf : List UInt8) : ℕ :=
  let size := entryField buf 1 1
  if 2 ≤ size ∧ size ≤ buf.length then size else 0

theorem decodeField_byte (b : UInt8) : decodeField [b] = b.toNat := by
  simp [decodeField, BigEndian.decode]

theorem entryField_byte {entry : List UInt8} {off : ℕ} (inside : off < entry.length) :
    entryField entry off 1 = (entry.getD off 0).toNat := by
  rw [entryField, List.drop_eq_getElem_cons inside, List.take_succ_cons, List.take_zero,
    decodeField_byte, List.getD_eq_getElem?_getD, List.getElem?_eq_getElem inside, Option.getD_some]

theorem entryField_take {buf : List UInt8} {n off width : ℕ} (inside : off + width ≤ n) :
    entryField (buf.take n) off width = entryField buf off width := by
  rw [entryField, entryField, List.drop_take, List.take_take, Nat.min_eq_left (by omega)]

theorem entryField_append {buf rest : List UInt8} {off width : ℕ}
    (inside : off + width ≤ buf.length) :
    entryField (buf ++ rest) off width = entryField buf off width := by
  rw [← entryField_take inside, List.take_left]

theorem le32_toNat {p : List UInt8} (long : 4 ≤ p.length) : (le32 p).toNat = entryField p 0 4 := by
  obtain ⟨a, b, c, d, rest, rfl⟩ : ∃ a b c d rest, p = a :: b :: c :: d :: rest := by
    match p, long with
    | a :: b :: c :: d :: rest, _ => exact ⟨a, b, c, d, rest, rfl⟩
  have := a.toNat_lt
  have := b.toNat_lt
  have := c.toNat_lt
  have := d.toNat_lt
  have field : entryField (a :: b :: c :: d :: rest) 0 4 =
      2 ^ 24 * d.toNat + (2 ^ 16 * c.toNat + (2 ^ 8 * b.toNat + a.toNat)) := by
    simp only [entryField, decodeField, BigEndian.decode, List.drop_zero, List.take_succ_cons,
      List.take_zero, List.reverse_cons, List.reverse_nil, List.nil_append, List.cons_append,
      List.foldl_cons, List.foldl_nil]
    omega
  -- The four shifted bytes share no bit, so their disjunction is their sum.
  rw [field, Nat.two_pow_add_eq_or_of_lt (by omega), Nat.two_pow_add_eq_or_of_lt (by omega),
    Nat.two_pow_add_eq_or_of_lt (by omega)]
  simp only [le32, List.getD_cons_zero, List.getD_cons_succ, UInt32.toNat_or,
    UInt32.toNat_shiftLeft, UInt8.toNat_toUInt32, Nat.shiftLeft_eq]
  have shifts : (8 : UInt32).toNat % 32 = 8 ∧ (16 : UInt32).toNat % 32 = 16 ∧
    (24 : UInt32).toNat % 32 = 24 := by decide
  rw [shifts.1, shifts.2.1, shifts.2.2, Nat.mod_eq_of_lt (by omega), Nat.mod_eq_of_lt (by omega),
    Nat.mod_eq_of_lt (by omega)]
  rw [Nat.or_comm (2 ^ 24 * _), Nat.or_comm (2 ^ 16 * _), Nat.or_comm (2 ^ 8 * _),
    Nat.mul_comm b.toNat, Nat.mul_comm c.toNat, Nat.mul_comm d.toNat]

theorem le64_toNat {p : List UInt8} (long : 8 ≤ p.length) : (le64 p).toNat = entryField p 0 8 := by
  have low := le32_toNat (show 4 ≤ p.length by omega)
  have high := @le32_toNat (p.drop 4) (by rw [List.length_drop]; omega)
  have lowBound := (le32 p).toNat_lt
  have highBound := (le32 (p.drop 4)).toNat_lt
  have halves : p.take 8 = p.take 4 ++ (p.drop 4).take 4 := List.take_add (i := 4) (j := 4)
  have field : entryField p 0 8 = 2 ^ 32 * (le32 (p.drop 4)).toNat + (le32 p).toNat := by
    rw [low, high, entryField, entryField, entryField, List.drop_zero, List.drop_zero, halves,
      decodeField_append, List.length_take_of_le (by omega)]
    rfl
  rw [field, Nat.two_pow_add_eq_or_of_lt lowBound, le64, UInt64.toNat_or, UInt64.toNat_shiftLeft,
    UInt32.toNat_toUInt64, UInt32.toNat_toUInt64, Nat.shiftLeft_eq]
  have shift : (32 : UInt64).toNat % 64 = 32 := by decide
  rw [shift, Nat.mod_eq_of_lt (by omega), Nat.or_comm, Nat.mul_comm]

theorem le32_field {e : List UInt8} {len off : ℕ} (inside : off + 4 ≤ len) (fits : len ≤ e.length) :
    (le32 (e.drop off)).toNat = entryField (e.take len) off 4 := by
  rw [le32_toNat (by rw [List.length_drop]; omega), entryField_take inside, entryField, entryField,
    List.drop_zero]

theorem le64_field {e : List UInt8} {len off : ℕ} (inside : off + 8 ≤ len) (fits : len ≤ e.length) :
    (le64 (e.drop off)).toNat = entryField (e.take len) off 8 := by
  rw [le64_toNat (by rw [List.length_drop]; omega), entryField_take inside, entryField, entryField,
    List.drop_zero]

theorem byte_field {e : List UInt8} {len off : ℕ} (inside : off < len) (fits : len ≤ e.length) :
    (e.getD off 0).toNat = entryField (e.take len) off 1 := by
  rw [entryField_take (show off + 1 ≤ len from inside), entryField_byte (by omega)]

theorem flags_ne_zero_iff {flags mask : UInt32} {i j : ℕ} (iSet : mask.toNat.testBit i = true)
    (jSet : mask.toNat.testBit j = true)
    (only : ∀ k, mask.toNat.testBit k = true → k = i ∨ k = j) :
    flags &&& mask ≠ 0 ↔ flags.toNat.testBit i ∨ flags.toNat.testBit j := by
  constructor
  · intro nonzero
    by_contra clear
    apply nonzero
    apply UInt32.toNat_inj.mp
    apply Nat.eq_of_testBit_eq
    intro k
    rw [UInt32.toNat_and, Nat.testBit_and, UInt32.toNat_zero, Nat.zero_testBit]
    by_contra both
    simp only [Bool.not_eq_false, Bool.and_eq_true] at both
    rcases only k both.2 with rfl | rfl
    · exact clear (Or.inl both.1)
    · exact clear (Or.inr both.1)
  · intro set zero
    have bits (k : ℕ) : (flags.toNat.testBit k && mask.toNat.testBit k) = false := by
      rw [← Nat.testBit_and, ← UInt32.toNat_and, zero, UInt32.toNat_zero, Nat.zero_testBit]
    rcases set with first | second
    · exact absurd (bits i) (by simp [first, iSet])
    · exact absurd (bits j) (by simp [second, jSet])

theorem only_bits {mask i j : ℕ} (narrow : mask < 2 ^ 4)
    (bits : ∀ k : Fin 4, mask.testBit k = true → k.val = i ∨ k.val = j) :
    ∀ k, mask.testBit k = true → k = i ∨ k = j := by
  intro k set
  by_cases low : k < 4
  · exact bits ⟨k, low⟩ set
  · have high : mask < 2 ^ k := lt_of_lt_of_le narrow (Nat.pow_le_pow_right (by decide) (by omega))
    exact absurd set (by simp [Nat.testBit_lt_two_pow high])

theorem cpu_usable_iff (flags : UInt32) :
    flags &&& (MADT_CPU_ENABLED ||| MADT_CPU_ONLINE_CAPABLE) ≠ 0 ↔
      flags.toNat.testBit 0 ∨ flags.toNat.testBit 1 :=
  flags_ne_zero_iff (by decide) (by decide) (only_bits (by decide) (by decide))

theorem gicc_usable_iff (flags : UInt32) :
    flags &&& (MADT_CPU_ENABLED ||| MADT_GICC_ONLINE_CAPABLE) ≠ 0 ↔
      flags.toNat.testBit 0 ∨ flags.toNat.testBit 3 :=
  flags_ne_zero_iff (by decide) (by decide) (only_bits (by decide) (by decide))

theorem isCpu_iff_of_type {entry : List UInt8} {id : ℕ} {kind : CpuKind} (member : kind ∈ cpuKinds)
    (type : entryField entry 0 1 = kind.type) :
    IsCpu entry id ↔ kind.long ≤ entry.length ∧
      ((entryField entry kind.flags 4).testBit 0 ∨
        (entryField entry kind.flags 4).testBit kind.online) ∧ id = kind.id entry := by
  constructor
  · rintro ⟨other, otherMember, otherType, found⟩
    have distinct : (cpuKinds.map CpuKind.type).Nodup := by decide
    rwa [List.inj_on_of_nodup_map distinct otherMember member (otherType.symm.trans type)] at found
  · rintro found
    exact ⟨kind, member, type, found⟩

theorem guarded_eq_some {α : Type} {short usable : Prop} [Decidable short] [Decidable usable]
    {value id : α} :
    (if short then none else if usable then some value else none) = some id ↔
      ¬ short ∧ usable ∧ id = value := by
  split_ifs <;> simp_all [eq_comm]

theorem madtEntryCpu_iff {e : List UInt8} {len : ℕ} (size : 2 ≤ len) (fits : len ≤ e.length)
    (id : UInt64) : madtEntryCpu e len = some id ↔ IsCpu (e.take len) id.toNat := by
  have type := @byte_field e len 0 (by omega) fits
  have length : (e.take len).length = len := List.length_take_of_le fits
  simp only [madtEntryCpu]
  by_cases lapic : e.getD 0 0 = MADT_ENTRY_LAPIC
  · rw [if_pos lapic, guarded_eq_some, cpu_usable_iff,
      isCpu_iff_of_type (List.mem_cons_self ..) (by rw [← type, lapic]; rfl), length, Nat.not_lt]
    refine and_congr_right fun long => ?_
    rw [le32_field long fits, ← UInt64.toNat_inj, UInt8.toNat_toUInt64,
      byte_field (show 3 < len by omega) fits]
  · rw [if_neg lapic]
    by_cases x2apic : e.getD 0 0 = MADT_ENTRY_X2APIC
    · rw [if_pos x2apic, guarded_eq_some, cpu_usable_iff,
        isCpu_iff_of_type (List.mem_cons_of_mem _ (List.mem_cons_self ..))
          (by rw [← type, x2apic]; rfl), length, Nat.not_lt]
      refine and_congr_right fun long => ?_
      rw [le32_field long fits, ← UInt64.toNat_inj, UInt32.toNat_toUInt64,
        le32_field (show 4 + 4 ≤ len by omega) fits]
    · rw [if_neg x2apic]
      by_cases gicc : e.getD 0 0 = MADT_ENTRY_GICC
      · rw [if_pos gicc, guarded_eq_some, gicc_usable_iff,
          isCpu_iff_of_type (List.mem_cons_of_mem _ (List.mem_cons_of_mem _ (List.mem_cons_self ..)))
            (by rw [← type, gicc]; rfl), length, Nat.not_lt]
        refine and_congr_right fun long => ?_
        have long : 76 ≤ len := long
        rw [le32_field (show 12 + 4 ≤ len by omega) fits, ← UInt64.toNat_inj, UInt64.toNat_and,
          MADT_GICC_MPIDR, le64_field (show 68 + 8 ≤ len by omega) fits]
        rfl
      · rw [if_neg gicc]
        refine ⟨fun none => absurd none (by simp), ?_⟩
        rintro ⟨kind, member, isType, -⟩
        rw [← type] at isType
        simp only [cpuKinds, List.mem_cons, List.not_mem_nil, or_false] at member
        rcases member with rfl | rfl | rfl
        · exact absurd (UInt8.toNat_inj.mp isType) lapic
        · exact absurd (UInt8.toNat_inj.mp isType) x2apic
        · exact absurd (UInt8.toNat_inj.mp isType) gicc

theorem entrySpan_eq {buf : List UInt8} (found : entrySpan buf ≠ 0) :
    entrySpan buf = entryField buf 1 1 ∧ 2 ≤ entrySpan buf ∧ entrySpan buf ≤ buf.length := by
  simp only [entrySpan] at found ⊢
  split at found
  · rename_i whole
    rw [if_pos whole]
    exact ⟨rfl, whole⟩
  · exact absurd rfl found

theorem entrySpan_le (buf : List UInt8) : entrySpan buf ≤ buf.length := by
  by_cases none : entrySpan buf = 0
  · omega
  · exact (entrySpan_eq none).2.2

theorem entrySpan_stable (buf rest : List UInt8) (found : entrySpan buf ≠ 0) :
    entrySpan (buf.take (entrySpan buf) ++ rest) = entrySpan buf := by
  obtain ⟨field, size, fits⟩ := entrySpan_eq found
  have length : (buf.take (entrySpan buf)).length = entrySpan buf := List.length_take_of_le fits
  have kept : entryField (buf.take (entrySpan buf) ++ rest) 1 1 = entrySpan buf := by
    rw [entryField_append (by omega), entryField_take (by omega), ← field]
  have whole : 2 ≤ entrySpan buf ∧ entrySpan buf ≤ (buf.take (entrySpan buf) ++ rest).length := by
    rw [List.length_append]
    omega
  rw [entrySpan, kept]
  exact if_pos whole

def madtDelimiter : Delimiter UInt8 := ⟨entrySpan, entrySpan_le, entrySpan_stable⟩

def entryCpus (entries : List (List UInt8)) : List UInt64 :=
  entries.filterMap fun entry => madtEntryCpu entry entry.length

theorem cpulistPush_granted (l : Cpulist) (id : UInt64) :
    (cpulistPush true l id).1 = 0 ∧ (cpulistPush true l id).2.ids = l.ids ++ [id] := by
  rw [cpulistPush]
  split
  · exact ⟨rfl, rfl⟩
  · exact ⟨rfl, rfl⟩

section Walk

variable {table : List UInt8} {len off : ℕ}

def entriesFrom (table : List UInt8) (len off : ℕ) : List UInt8 := (table.take len).drop off

theorem length_entriesFrom (fits : len ≤ table.length) :
    (entriesFrom table len off).length = len - off := by
  rw [entriesFrom, List.length_drop, List.length_take_of_le fits]

theorem entrySpan_entriesFrom (fits : len ≤ table.length) (more : off + 2 ≤ len) :
    entrySpan (entriesFrom table len off) =
      let elen := (table.getD (off + 1) 0).toNat
      if elen < 2 ∨ off + elen > len then 0 else elen := by
  have length := @length_entriesFrom table len off fits
  have field : entryField (entriesFrom table len off) 1 1 = (table.getD (off + 1) 0).toNat := by
    rw [byte_field (show off + 1 < len by omega) fits, entryField, entryField, entriesFrom,
      List.drop_drop, Nat.add_comm off 1]
  simp only [entrySpan, field, length]
  split <;> split <;> omega

theorem take_entriesFrom {elen : ℕ} (inside : off + elen ≤ len) :
    (entriesFrom table len off).take elen = (table.drop off).take elen := by
  rw [entriesFrom, List.drop_take, List.take_take, Nat.min_eq_left (by omega)]

theorem drop_entriesFrom (elen : ℕ) :
    (entriesFrom table len off).drop elen = entriesFrom table len (off + elen) := by
  rw [entriesFrom, List.drop_drop, entriesFrom]

theorem entryCpus_entriesFrom {elen : ℕ} (fits : len ≤ table.length)
    (span : entrySpan (entriesFrom table len off) = elen) (size : 2 ≤ elen)
    (inside : off + elen ≤ len) :
    entryCpus (madtDelimiter.chunks (entriesFrom table len off)) =
      (madtEntryCpu (table.drop off) elen).toList ++
        entryCpus (madtDelimiter.chunks (entriesFrom table len (off + elen))) := by
  have found : madtDelimiter.size (entriesFrom table len off) = elen := span
  have taken := @take_entriesFrom table len off elen inside
  have length : ((table.drop off).take elen).length = elen := by
    rw [List.length_take_of_le]
    rw [List.length_drop]
    omega
  have same : madtEntryCpu ((table.drop off).take elen) elen = madtEntryCpu (table.drop off) elen := by
    apply Option.ext
    intro id
    rw [madtEntryCpu_iff size (le_of_eq length.symm), List.take_take, Nat.min_self,
      madtEntryCpu_iff size (by rw [List.length_drop]; omega)]
  rw [Delimiter.chunks_of_size (by omega), found, taken, drop_entriesFrom, entryCpus,
    List.filterMap_cons, length, same]
  cases madtEntryCpu (table.drop off) elen with
  | none => rfl
  | some id => rfl

theorem rest_entriesFrom {elen : ℕ} (span : entrySpan (entriesFrom table len off) = elen)
    (size : 2 ≤ elen) :
    madtDelimiter.rest (entriesFrom table len off) =
      madtDelimiter.rest (entriesFrom table len (off + elen)) := by
  have found : madtDelimiter.size (entriesFrom table len off) = elen := span
  rw [Delimiter.rest_of_size (by omega), found, drop_entriesFrom]

/-- What the loop comes to from any offset and any list so far, memory granted: after a bad entry
the result is 0 all the same once a CPU was pushed. -/
theorem madtEntries_eq {ret : Int} {l : Cpulist} (fits : len ≤ table.length) :
    madtEntries (fun _ => true) table len off ret l =
      (if (madtDelimiter.rest (entriesFrom table len off)).length < 2 then
        (0, cpulistNormalize (l.ids ++ entryCpus (madtDelimiter.chunks (entriesFrom table len off))))
      else
        (if entryCpus (madtDelimiter.chunks (entriesFrom table len off)) = [] then ret else 0,
          l.ids ++ entryCpus (madtDelimiter.chunks (entriesFrom table len off)))) := by
  fun_induction madtEntries (fun _ => true) table len off ret l with
  | case1 off ret l more elen bad =>
      have none : madtDelimiter.size (entriesFrom table len off) = 0 := by
        rw [show madtDelimiter.size = entrySpan from rfl, entrySpan_entriesFrom fits more]
        exact if_pos bad
      have length := @length_entriesFrom table len off fits
      rw [Delimiter.rest_of_size_zero none, Delimiter.chunks_of_size_zero none, if_neg (by omega)]
      simp [entryCpus]
  | case2 off ret l more elen good skipped ih =>
      obtain ⟨size, inside⟩ : 2 ≤ elen ∧ off + elen ≤ len := by omega
      have span : entrySpan (entriesFrom table len off) = elen :=
        (entrySpan_entriesFrom fits more).trans (if_neg good)
      rw [ih, rest_entriesFrom span size, entryCpus_entriesFrom fits span size inside, skipped,
        Option.toList_none, List.nil_append]
  | case3 off ret l more elen good id isCpu ret' l' pushed failed =>
      have granted := (cpulistPush_granted l id).1
      rw [pushed] at granted
      exact absurd granted failed
  | case4 off ret l more elen good id isCpu ret' l' pushed succeeded ih =>
      obtain ⟨size, inside⟩ : 2 ≤ elen ∧ off + elen ≤ len := by omega
      have span : entrySpan (entriesFrom table len off) = elen :=
        (entrySpan_entriesFrom fits more).trans (if_neg good)
      have granted := cpulistPush_granted l id
      simp only [pushed] at granted
      rw [ih, rest_entriesFrom span size, entryCpus_entriesFrom fits span size inside, isCpu,
        granted.1, granted.2, Option.toList_some, List.append_assoc]
      simp
  | case5 off ret l done =>
      have length := @length_entriesFrom table len off fits
      have field : entrySpan (entriesFrom table len off) ≤ (entriesFrom table len off).length :=
        entrySpan_le _
      have none : madtDelimiter.size (entriesFrom table len off) = 0 := by
        by_contra found
        have := (entrySpan_eq found).2.1
        omega
      rw [Delimiter.rest_of_size_zero none, Delimiter.chunks_of_size_zero none, if_pos (by omega)]
      simp [entryCpus]

end Walk

theorem unique_foldl {kept rest : List UInt64} (rising : kept.Pairwise (· < ·))
    (sorted : rest.Pairwise (· ≤ ·)) (below : ∀ low ∈ kept, ∀ high ∈ rest, low ≤ high) :
    (rest.foldl (fun kept id => if kept.getLast? = some id then kept else kept ++ [id])
        kept).Pairwise (· < ·) ∧
      ∀ id, id ∈ rest.foldl (fun kept id => if kept.getLast? = some id then kept else kept ++ [id])
        kept ↔ id ∈ kept ∨ id ∈ rest := by
  induction rest generalizing kept with
  | nil => exact ⟨rising, by simp⟩
  | cons next rest ih =>
      obtain ⟨first, restSorted⟩ := List.pairwise_cons.mp sorted
      rw [List.foldl_cons]
      by_cases last : kept.getLast? = some next
      · rw [if_pos last]
        have result := ih rising restSorted fun low lowMember high highMember =>
          below low lowMember high (by simp [highMember])
        refine ⟨result.1, fun id => ?_⟩
        have member := List.mem_of_getLast? last
        rw [result.2, List.mem_cons]
        grind
      · rw [if_neg last]
        have above : ∀ low ∈ kept, low < next := by
          intro low member
          rcases List.eq_nil_or_concat' kept with rfl | ⟨front, final, rfl⟩
          · simp at member
          · have finalBelow : final < next :=
              UInt64.lt_of_le_of_ne (below final (by simp) next (by simp)) fun same =>
                last (by simp [same])
            rcases List.mem_append.mp member with old | new
            · exact UInt64.lt_trans ((List.pairwise_append.mp rising).2.2 low old final (by simp))
                finalBelow
            · rwa [List.mem_singleton.mp new]
        have longer : (kept ++ [next]).Pairwise (· < ·) :=
          List.pairwise_append.mpr ⟨rising, List.pairwise_singleton _ _, by simpa using above⟩
        have result := ih longer restSorted
          (by
            intro low lowMember high highMember
            rcases List.mem_append.mp lowMember with old | new
            · exact below low old high (by simp [highMember])
            · rw [List.mem_singleton.mp new]
              exact first high highMember)
        refine ⟨result.1, fun id => ?_⟩
        rw [result.2, List.mem_append, List.mem_singleton, List.mem_cons, or_assoc]

theorem cpulistNormalize_sorted (ids : List UInt64) :
    (cpulistNormalize ids).Pairwise (· < ·) ∧ ∀ id, id ∈ cpulistNormalize ids ↔ id ∈ ids := by
  have loop := @unique_foldl [] (ids.insertionSort (· ≤ ·)) List.Pairwise.nil
    (List.pairwise_insertionSort _ _) (by simp)
  refine ⟨loop.1, fun id => ?_⟩
  rw [cpulistNormalize, loop.2, List.mem_insertionSort]
  simp

theorem mem_entryCpus {buf : List UInt8} {id : UInt64} :
    id ∈ entryCpus (madtDelimiter.chunks buf) ↔
      ∃ entry ∈ madtDelimiter.chunks buf, IsCpu entry id.toNat := by
  rw [entryCpus, List.mem_filterMap]
  refine exists_congr fun entry => and_congr_right fun member => ?_
  have isChunk := Delimiter.isChunk_of_mem member
  have whole : entrySpan entry = entry.length := isChunk.whole
  have found : entrySpan entry ≠ 0 := by
    rw [whole]
    exact fun empty => isChunk.nonempty (List.length_eq_zero_iff.mp empty)
  have size := (entrySpan_eq found).2.1
  rw [madtEntryCpu_iff (by omega) (Nat.le_refl _), List.take_length]

structure MadtHeader (table : List UInt8) : Prop where
  long : MADT_HEADER_LEN ≤ table.length
  signature : table.take 4 = [0x41, 0x50, 0x49, 0x43]
  declared : entryField table 4 4 ≤ table.length

def madtBody (table : List UInt8) : List UInt8 :=
  entriesFrom table (entryField table 4 4) MADT_HEADER_LEN

def madtRecords (table : List UInt8) : List (List UInt8) := madtDelimiter.chunks (madtBody table)

/-- No entry is malformed: the walk ends with less than the head of an entry left. -/
def MadtWhole (table : List UInt8) : Prop := (madtDelimiter.rest (madtBody table)).length < 2

instance (table : List UInt8) : Decidable (MadtWhole table) :=
  inferInstanceAs (Decidable (_ < _))

/-- What reading a table should come to: the CPUs it lists, or an error and no list. -/
structure MadtRead (table : List UInt8) (read : Int × List UInt64) : Prop where
  accepted : MadtHeader table → MadtWhole table → read.1 = 0 ∧ read.2.Pairwise (· < ·) ∧
    ∀ id, id ∈ read.2 ↔ ∃ entry ∈ madtRecords table, IsCpu entry id.toNat
  refused : ¬ (MadtHeader table ∧ MadtWhole table) → read.1 < 0 ∧ read.2 = []

theorem madtReadCpus_of_header {table : List UInt8} (header : MadtHeader table) :
    madtReadCpus (fun _ => true) (.ok table) =
      if MadtWhole table then (0, cpulistNormalize (entryCpus (madtRecords table)))
      else if entryCpus (madtRecords table) = [] then (-EINVAL, [])
      else (0, entryCpus (madtRecords table)) := by
  have long : 44 ≤ table.length := header.long
  have declared : (le32 (table.drop 4)).toNat = entryField table 4 4 := by
    rw [@le32_field table table.length 4 (by omega) (Nat.le_refl _), List.take_length]
  have valid : ¬ (table.length < MADT_HEADER_LEN ∨ table.take 4 ≠ [0x41, 0x50, 0x49, 0x43] ∨
      entryField table 4 4 > table.length) := by
    have := header.declared
    have := header.long
    rw [header.signature]
    simp only [ne_eq, not_true_eq_false, false_or]
    omega
  simp only [madtReadCpus, declared, if_neg valid, madtEntries_eq header.declared, List.nil_append]
  rw [← madtBody, ← madtRecords]
  by_cases whole : MadtWhole table
  · have short : (madtDelimiter.rest (madtBody table)).length < 2 := whole
    rw [if_pos whole, if_pos short]
    rfl
  · have left : ¬ (madtDelimiter.rest (madtBody table)).length < 2 := whole
    rw [if_neg whole, if_neg left]
    by_cases none : entryCpus (madtRecords table) = []
    · rw [if_pos none, if_pos none]
      rfl
    · rw [if_neg none, if_neg none]
      rfl

theorem madtReadCpus_of_no_header {table : List UInt8} (bad : ¬ MadtHeader table) :
    madtReadCpus (fun _ => true) (.ok table) = (-EINVAL, []) := by
  have invalid : table.length < MADT_HEADER_LEN ∨ table.take 4 ≠ [0x41, 0x50, 0x49, 0x43] ∨
      (le32 (table.drop 4)).toNat > table.length := by
    by_contra valid
    simp only [not_or, Nat.not_lt, ne_eq, not_not, gt_iff_lt] at valid
    have long : 44 ≤ table.length := valid.1
    refine bad ⟨valid.1, valid.2.1, ?_⟩
    have declared := valid.2.2
    rwa [@le32_field table table.length 4 (by omega) (Nat.le_refl _), List.take_length] at declared
  simp only [madtReadCpus, if_pos invalid]
  rfl

/-- A table is read as it should be, memory granted, unless a CPU stands before its first
malformed entry: then the CPUs read so far pass for the whole list. -/
theorem madtReadCpus_exact_iff (table : List UInt8) :
    MadtRead table (madtReadCpus (fun _ => true) (.ok table)) ↔
      ¬ (MadtHeader table ∧ ¬ MadtWhole table ∧
        ∃ entry ∈ madtRecords table, ∃ id : UInt64, IsCpu entry id.toNat) := by
  by_cases header : MadtHeader table
  · rw [madtReadCpus_of_header header]
    by_cases whole : MadtWhole table
    · rw [if_pos whole]
      obtain ⟨sorted, members⟩ := cpulistNormalize_sorted (entryCpus (madtRecords table))
      refine iff_of_true ⟨fun _ _ => ⟨rfl, sorted, fun id => ?_⟩, fun bad => ?_⟩ fun bad => bad.2.1 whole
      · rw [members]
        exact mem_entryCpus
      · exact absurd ⟨header, whole⟩ bad
    · rw [if_neg whole]
      by_cases none : entryCpus (madtRecords table) = []
      · rw [if_pos none]
        refine iff_of_true ⟨fun _ isWhole => absurd isWhole whole, fun _ => ⟨by decide, rfl⟩⟩ ?_
        rintro ⟨-, -, entry, member, id, cpu⟩
        have listed : id ∈ entryCpus (madtRecords table) := mem_entryCpus.mpr ⟨entry, member, cpu⟩
        rw [none] at listed
        simp at listed
      · rw [if_neg none]
        obtain ⟨id, listed⟩ := List.exists_mem_of_ne_nil _ none
        obtain ⟨entry, member, cpu⟩ := mem_entryCpus.mp listed
        refine iff_of_false (fun read => ?_) fun clean => ?_
        · exact absurd (read.refused fun both => whole both.2).1 (Int.lt_irrefl 0)
        · exact clean ⟨header, whole, entry, member, id, cpu⟩
  · rw [madtReadCpus_of_no_header header]
    exact iff_of_true ⟨fun good => absurd good header, fun _ => ⟨by decide, rfl⟩⟩ fun bad =>
      header bad.1

def brokenTable : List UInt8 :=
  [0x41, 0x50, 0x49, 0x43, 60, 0, 0, 0] ++ List.replicate 36 0 ++
    [0, 8, 3, 3, 1, 0, 0, 0, 0, 0, 5, 5, 1, 0, 0, 0]

theorem brokenTable_header : MadtHeader brokenTable := ⟨by decide, by decide, by decide⟩

/-- It is accepted with the first CPU alone. -/
theorem brokenTable_accepted :
    MadtHeader brokenTable ∧ ¬ MadtWhole brokenTable ∧
      madtReadCpus (fun _ => true) (.ok brokenTable) = (0, [3]) ∧
      ¬ MadtRead brokenTable (madtReadCpus (fun _ => true) (.ok brokenTable)) := by
  have broken : ¬ MadtWhole brokenTable := by decide +kernel
  have result : madtReadCpus (fun _ => true) (.ok brokenTable) = (0, [3]) := by decide +kernel
  refine ⟨brokenTable_header, broken, result, fun read => ?_⟩
  have refused := (read.refused fun both => broken both.2).1
  rw [result] at refused
  exact absurd refused (by decide)

end Kmorph
