import Kmorph.FdtLayout
import Kmorph.FdtPoolCore

/-!
Memory safety of the readers: over bytes that `fdtutil_check` accepts, whatever they
are otherwise, no reader leaves the buffer, but for the byte behind a list of
compatible strings that ends it.
-/

namespace Kmorph.Fdt

open BigEndian Extents

section Safety

variable {fdt : List UInt8} {offset : Int}

theorem load_inside {p len : ℕ} (inside : p + len ≤ fdt.length) : load fdt p len ≠ none := by
  rw [load, if_pos inside]
  simp

theorem load32_inside {p : ℕ} (inside : p + 4 ≤ fdt.length) : load32 fdt p ≠ none := by
  rw [load32, Ne, Option.map_eq_none_iff]
  exact load_inside inside

theorem cuint_lt (n : Int) : cuint n < 2 ^ 32 := by
  rw [cuint]
  omega

theorem load32_lt {p n : ℕ} (loaded : load32 fdt p = some n) : n < 2 ^ 32 := by
  obtain ⟨bytes, read, rfl⟩ := Option.map_eq_some_iff.mp loaded
  have := decode_lt bytes
  rwa [length_of_load read] at this

theorem fdtOffsetPtr_eq {len p : ℕ} (found : fdtOffsetPtr fdt offset len = some p) :
    p = fdtHeader fdt .offDtStruct + offset.toNat := by
  simp only [fdtOffsetPtr] at found
  split at found
  · cases found
  · split at found
    · cases found
    · split at found
      · cases found
      · exact (Option.some.inj found).symm

theorem Checked.offsetPtr (checked : Checked fdt) {len p : ℕ} (small : len < 2 ^ 32)
    (found : fdtOffsetPtr fdt offset len = some p) :
    p = fdtHeader fdt .offDtStruct + offset.toNat ∧ p + len ≤ fdtHeader fdt .totalsize := by
  have range := fdtOffsetPtr_range found
  have total := checked.small
  have start := checked.start
  simp only [fdtOffsetPtr] at found
  split at found
  · cases found
  · split at found
    · cases found
    · rename_i inside
      split at found
      · cases found
      · cases found
        refine ⟨rfl, ?_⟩
        simp only [cuint, INT_MAX] at inside range total
        omega

theorem Checked.skipName (checked : Checked fdt) : Fdt.skipName fdt offset ≠ none := by
  fun_induction Fdt.skipName fdt offset with
  | case1 => simp
  | case2 offset p found missing =>
      have := checked.offsetPtr (by decide) found
      have := checked.total
      exact absurd missing (load_inside (by omega))
  | case3 => simp
  | case4 offset p found c loaded more ih => exact ih

theorem Checked.skipTag (checked : Checked fdt) (tag : FdtTag) : Fdt.skipTag fdt offset tag ≠ none := by
  cases tag with
  | beginNode => exact checked.skipName
  | prop =>
      rw [Fdt.skipTag, skipProp]
      split
      · simp
      · rename_i p found
        have := checked.offsetPtr (by decide) found
        have := checked.total
        obtain ⟨len, loaded⟩ := Option.ne_none_iff_exists'.mp (@load32_inside fdt p (by omega))
        rw [loaded, Option.bind_eq_bind, Option.bind_some]
        dsimp only
        split <;> simp
  | endNode | nop | stop => simp [Fdt.skipTag]

theorem Checked.nextTag (checked : Checked fdt) (offset : Int) : fdtNextTag fdt offset ≠ none := by
  rw [fdtNextTag]
  split
  · simp
  · rename_i p found
    have inside := checked.offsetPtr (by decide) found
    have := checked.total
    simp only [FDT_TAGSIZE] at inside
    split
    · rename_i missing
      exact absurd missing (load32_inside (by omega))
    · split
      · simp
      · rename_i tag _
        split
        · rename_i missing
          exact absurd missing (checked.skipTag tag)
        · simp
        · split <;> simp

theorem Checked.checkNodeOffset (checked : Checked fdt) (offset : Int) : fdtCheckNodeOffset fdt offset ≠ none := by
  rw [fdtCheckNodeOffset]
  split
  · simp
  · obtain ⟨read, found⟩ := Option.ne_none_iff_exists'.mp (checked.nextTag offset)
    rw [found]
    simp

theorem Checked.checkPropOffset (checked : Checked fdt) (offset : Int) : fdtCheckPropOffset fdt offset ≠ none := by
  rw [fdtCheckPropOffset]
  split
  · simp
  · obtain ⟨read, found⟩ := Option.ne_none_iff_exists'.mp (checked.nextTag offset)
    rw [found]
    simp

theorem Checked.nextNodeLoop (checked : Checked fdt) (offset depth : Int) : Fdt.nextNodeLoop fdt offset depth ≠ none := by
  fun_induction Fdt.nextNodeLoop fdt offset depth with
  | case1 offset depth missing => exact absurd missing (checked.nextTag offset)
  | case2 | case5 | case7 => simp
  | case3 offset depth next read ih | case4 offset depth next read ih | case6 offset depth next read up ih => exact ih

theorem Checked.nextNode (checked : Checked fdt) (offset depth : Int) : fdtNextNode fdt offset depth ≠ none := by
  rw [fdtNextNode]
  split
  · rename_i missing
    split at missing
    · exact absurd missing (checked.checkNodeOffset offset)
    · cases missing
  · split
    · simp
    · exact checked.nextNodeLoop _ depth

theorem Checked.firstSubnode (checked : Checked fdt) (offset : Int) : fdtFirstSubnode fdt offset ≠ none := by
  obtain ⟨walked, found⟩ := Option.ne_none_iff_exists'.mp (checked.nextNode offset 0)
  rw [fdtFirstSubnode, found]
  simp

theorem Checked.nextSubnode (checked : Checked fdt) (offset : Int) : fdtNextSubnode fdt offset ≠ none := by
  rw [fdtNextSubnode]
  generalize (1 : Int) = depth
  fun_induction nextSubnodeLoop fdt offset depth with
  | case1 offset depth missing => exact absurd missing (checked.nextNode offset depth)
  | case2 | case4 => simp
  | case3 offset depth next deeper walked inside more ih => exact ih

theorem Checked.nextprop (checked : Checked fdt) (offset : Int) : Fdt.nextprop fdt offset ≠ none := by
  fun_induction Fdt.nextprop fdt offset with
  | case1 offset missing => exact absurd missing (checked.nextTag offset)
  | case2 | case3 | case5 | case6 => simp
  | case4 offset next read ih => exact ih

theorem Checked.firstPropertyOffset (checked : Checked fdt) (offset : Int) : fdtFirstPropertyOffset fdt offset ≠ none := by
  obtain ⟨next, found⟩ := Option.ne_none_iff_exists'.mp (checked.checkNodeOffset offset)
  rw [fdtFirstPropertyOffset, found, Option.bind_eq_bind, Option.bind_some]
  split
  · simp
  · exact checked.nextprop next

theorem Checked.nextPropertyOffset (checked : Checked fdt) (offset : Int) : fdtNextPropertyOffset fdt offset ≠ none := by
  obtain ⟨next, found⟩ := Option.ne_none_iff_exists'.mp (checked.checkPropOffset offset)
  rw [fdtNextPropertyOffset, found, Option.bind_eq_bind, Option.bind_some]
  split
  · simp
  · exact checked.nextprop next

/-! Names. -/

theorem skipName_nul {next : Int} (inside : 0 ≤ offset) (skipped : skipName fdt offset = some (some next)) :
    0 ∈ fdt.drop (fdtHeader fdt .offDtStruct + offset.toNat) := by
  fun_induction skipName fdt offset with
  | case1 | case2 => cases skipped
  | case3 offset p found loaded =>
      rw [load] at loaded
      split at loaded
      · obtain rfl := fdtOffsetPtr_eq found
        rw [cells] at loaded
        exact List.mem_of_mem_take (Option.some.inj loaded ▸ List.mem_singleton_self 0)
      · cases loaded
  | case4 offset p found c loaded more ih =>
      have later := ih (by omega) skipped
      rw [show (offset + 1).toNat = offset.toNat + 1 by omega, ← Nat.add_assoc, ← List.drop_drop] at later
      exact List.mem_of_mem_drop later

/-- What the tag at an offset is followed by, where the walk goes on. -/
theorem fdtNextTag_skips {next : Int} {tag : FdtTag} (read : fdtNextTag fdt offset = some (tag, next)) (more : tag ≠ .stop) :
    ∃ behind, skipTag fdt (offset + FDT_TAGSIZE) tag = some (some behind) ∧
      fdtOffsetPtr fdt offset (cuint (behind - offset)) ≠ none := by
  simp only [fdtNextTag] at read
  split at read
  · cases read
    exact absurd rfl more
  · split at read
    · cases read
    · split at read
      · cases read
        exact absurd rfl more
      · split at read
        · cases read
        · cases read
          exact absurd rfl more
        · rename_i behind skipped
          split at read
          · cases read
            exact absurd rfl more
          · rename_i inside
            cases read
            exact ⟨behind, skipped, inside⟩

theorem fdtCheckNodeOffset_nul {next : Int} (node : fdtCheckNodeOffset fdt offset = some next) (inside : 0 ≤ next) :
    0 ∈ fdt.drop (fdtHeader fdt .offDtStruct + offset.toNat + FDT_TAGSIZE) := by
  simp only [fdtCheckNodeOffset, FDT_ERR_BADOFFSET] at node
  split at node
  · cases node
    omega
  · obtain ⟨⟨tag, next⟩, read, node⟩ := Option.bind_eq_some_iff.mp node
    split at node
    · cases node
      omega
    · rename_i begins
      obtain rfl : tag = .beginNode := by simpa using begins
      obtain ⟨behind, skipped, -⟩ := fdtNextTag_skips read (by simp)
      have nul := skipName_nul (by simp only [FDT_TAGSIZE]; omega) skipped
      rwa [show (offset + FDT_TAGSIZE).toNat = offset.toNat + FDT_TAGSIZE by simp only [FDT_TAGSIZE]; omega,
        ← Nat.add_assoc] at nul

theorem Checked.getName (checked : Checked fdt) (offset : Int) : fdtGetName fdt offset ≠ none := by
  rw [fdtGetName]
  split
  · simp
  · obtain ⟨next, node⟩ := Option.ne_none_iff_exists'.mp (checked.checkNodeOffset offset)
    rw [node, Option.bind_eq_bind, Option.bind_some]
    split
    · simp
    · simp only [loadString, if_pos (fdtCheckNodeOffset_nul node (by omega)), bind, Option.bind]
      split
      · split <;> simp
      · simp

theorem Checked.nodenameMatches (checked : Checked fdt) (offset : Int) (s : List UInt8) :
    fdtNodenameMatches fdt offset s ≠ none := by
  obtain ⟨name, found⟩ := Option.ne_none_iff_exists'.mp (checked.getName offset)
  rw [fdtNodenameMatches, found]
  cases name <;> simp

theorem Checked.subnodeOffset (checked : Checked fdt) (parent : Int) (name : List UInt8) :
    fdtSubnodeOffset fdt parent name ≠ none := by
  rw [fdtSubnodeOffset]
  split
  · simp
  · generalize (0 : Int) = depth
    fun_induction subnodeLoop fdt name parent depth with
    | case1 | case3 => simp
    | case2 offset depth outside missing =>
        split at missing
        · exact absurd missing (checked.nodenameMatches offset name)
        · cases missing
    | case4 offset depth outside other missing => exact absurd missing (checked.nextNode offset depth)
    | case5 offset depth outside other next deeper walked ih => exact ih

theorem Checked.pathOffset (checked : Checked fdt) (path : List UInt8) : fdtPathOffset fdt path ≠ none := by
  have walk (names : List (List UInt8)) (offset : Int) : pathLoop fdt names offset ≠ none := by
    induction names generalizing offset with
    | nil => simp [pathLoop]
    | cons name names ih =>
        obtain ⟨next, found⟩ := Option.ne_none_iff_exists'.mp (checked.subnodeOffset offset name)
        rw [pathLoop, found]
        dsimp only
        split
        · simp
        · exact ih next
  rw [fdtPathOffset]
  split
  · simp
  · split
    · simp
    · exact walk _ 0

/-! Properties. -/

theorem Checked.roProbe (checked : Checked fdt) (probed : ¬ fdtRoProbe fdt < 0) :
    fdtRoProbe fdt = fdtHeader fdt .totalsize := by
  have first := checked.first
  have last := checked.last
  simp only [fdtRoProbe, checked.magic, if_true] at probed ⊢
  rw [if_neg (show ¬ fdtHeader fdt .version < _ by omega),
    if_neg (show ¬ fdtHeader fdt .lastCompVersion > _ by omega), if_neg (by decide)] at probed ⊢
  split at probed
  · rw [if_pos ‹_›]
  · exact absurd (by decide) probed

theorem Checked.getString (checked : Checked fdt) (stroffset : Int) : fdtGetString fdt stroffset ≠ none := by
  have string (absoffset len : ℕ) (inside : absoffset + len ≤ fdtHeader fdt .totalsize) :
      (do
        let s ← load fdt absoffset len
        return if 0 ∈ s then .ok (s.takeWhile (· ≠ 0)) else .error (-FDT_ERR_TRUNCATED) :
        Option (Except Int (List UInt8))) ≠ none := by
    have := checked.total
    obtain ⟨s, loaded⟩ := Option.ne_none_iff_exists'.mp (@load_inside fdt absoffset len (by omega))
    rw [loaded]
    simp
  simp only [fdtGetString]
  by_cases probed : fdtRoProbe fdt < 0
  · simp [probed]
  · rw [if_neg probed]
    have total := checked.roProbe probed
    split
    · simp
    · rename_i inside
      rw [total, Int.toNat_natCast] at inside
      rw [total, Int.toNat_natCast]
      split
      · split
        · simp
        · split
          · split
            · simp
            · exact string _ _ (by omega)
          · exact string _ _ (by omega)
      · split
        · split
          · simp
          · exact string _ _ (by omega)
        · simp

/-- The first byte of a property's value. -/
def valueStart (fdt : List UInt8) (offset : Int) (len : ℕ) : ℕ :=
  fdtHeader fdt .offDtStruct + offset.toNat + FDT_PROPERTY_SIZE +
    if fdtHeader fdt .version < 0x10 ∧ (offset + FDT_PROPERTY_SIZE) % 8 ≠ 0 ∧ len ≥ 8 then 4 else 0

/-- A property that the walk goes over lies in the buffer with its value. -/
theorem Checked.property (checked : Checked fdt) {next : Int} (prop : fdtCheckPropOffset fdt offset = some next)
    (inside : 0 ≤ next) :
    0 ≤ offset ∧ ∃ len, load32 fdt (fdtHeader fdt .offDtStruct + offset.toNat + 4) = some len ∧ len < INT_MAX ∧
      valueStart fdt offset len + len ≤ fdt.length := by
  simp only [fdtCheckPropOffset, FDT_ERR_BADOFFSET] at prop
  split at prop
  · cases prop
    omega
  · obtain ⟨⟨tag, next⟩, read, prop⟩ := Option.bind_eq_some_iff.mp prop
    split at prop
    · cases prop
      omega
    · rename_i begins
      obtain rfl : tag = .prop := by simpa using begins
      obtain ⟨behind, skipped, whole⟩ := fdtNextTag_skips read (by simp)
      rw [Fdt.skipTag, skipProp] at skipped
      split at skipped
      · cases skipped
      · rename_i lenp found
        obtain rfl := fdtOffsetPtr_eq found
        obtain ⟨len, loaded, skipped⟩ := Option.bind_eq_some_iff.mp skipped
        have range := load32_lt loaded
        dsimp only at skipped
        split at skipped
        · cases skipped
        · rename_i sum
          obtain ⟨p, placed⟩ := Option.ne_none_iff_exists'.mp whole
          have base := fdtOffsetPtr_range placed
          cases skipped
          have whole := (checked.offsetPtr (cuint_lt _) placed).2
          have total := checked.total
          obtain rfl := fdtOffsetPtr_eq placed
          refine ⟨by omega, len, by rwa [show (offset + FDT_TAGSIZE).toNat = offset.toNat + 4 by
            simp only [FDT_TAGSIZE]; omega, ← Nat.add_assoc] at loaded, ?_, ?_⟩
          · simp only [cuint, INT_MAX, FDT_TAGSIZE] at sum base ⊢
            omega
          · have padded : (fdtHeader fdt .version < 0x10 ∧ len ≥ 8 ∧
                (offset + FDT_TAGSIZE + (FDT_PROPERTY_SIZE - FDT_TAGSIZE : ℕ) + len - len) % 8 ≠ 0) ↔
                (fdtHeader fdt .version < 0x10 ∧ (offset + FDT_PROPERTY_SIZE) % 8 ≠ 0 ∧ len ≥ 8) := by
              simp only [FDT_TAGSIZE, FDT_PROPERTY_SIZE]
              omega
            rw [valueStart]
            simp only [padded] at whole
            by_cases shifted : fdtHeader fdt .version < 0x10 ∧ (offset + FDT_PROPERTY_SIZE) % 8 ≠ 0 ∧ len ≥ 8
            · rw [if_pos shifted] at whole ⊢
              simp only [cuint, INT_MAX, FDT_TAGSIZE, FDT_PROPERTY_SIZE] at sum base whole ⊢
              omega
            · rw [if_neg shifted] at whole ⊢
              simp only [cuint, INT_MAX, FDT_TAGSIZE, FDT_PROPERTY_SIZE] at sum base whole ⊢
              omega

theorem Checked.stringEq (checked : Checked fdt) (stroffset : Int) (s : List UInt8) :
    fdtStringEq fdt stroffset s ≠ none := by
  obtain ⟨string, found⟩ := Option.ne_none_iff_exists'.mp (checked.getString stroffset)
  rw [fdtStringEq, found]
  simp

theorem Checked.getPropertyLoop (checked : Checked fdt) (name : List UInt8) (offset : Int) :
    ∃ r, Fdt.getPropertyLoop fdt name offset = some r ∧
      ∀ found, r = .ok found → ∃ next, fdtCheckPropOffset fdt found = some next ∧ 0 ≤ next := by
  fun_induction Fdt.getPropertyLoop fdt name offset with
  | case1 | case3 => exact ⟨_, rfl, fun _ found => by cases found⟩
  | case2 offset outside missing => exact absurd missing (checked.checkPropOffset offset)
  | case4 offset outside next prop inside missing =>
      obtain ⟨base, len, loaded, -, within⟩ := checked.property prop (by omega)
      rw [valueStart, FDT_PROPERTY_SIZE] at within
      exact absurd missing (load32_inside (by omega))
  | case5 offset outside next prop inside nameoff loaded missing => exact absurd missing (checked.stringEq _ name)
  | case6 offset outside next prop inside nameoff loaded same =>
      refine ⟨_, rfl, ?_⟩
      rintro found ⟨⟩
      exact ⟨next, prop, by omega⟩
  | case7 offset outside next prop inside nameoff loaded other missing =>
      exact absurd missing (checked.nextPropertyOffset offset)
  | case8 offset outside next prop inside nameoff loaded other after found ih => exact ih

/-- The value lies in the buffer, whatever was asked for. -/
theorem Checked.getprop (checked : Checked fdt) (node : Int) (name : List UInt8) :
    ∃ r, Fdt.fdtGetprop fdt node name = some r ∧
      ∀ p len, r = .ok (p, len) → 0 ≤ len ∧ p + len.toNat ≤ fdt.length := by
  obtain ⟨first, found⟩ := Option.ne_none_iff_exists'.mp (checked.firstPropertyOffset node)
  obtain ⟨r, walked, within⟩ := checked.getPropertyLoop name first
  rw [Fdt.fdtGetprop, found, Option.bind_eq_bind, Option.bind_some, walked, Option.bind_eq_bind, Option.bind_some]
  cases r with
  | error errno => exact ⟨_, rfl, fun _ _ found => by cases found⟩
  | ok offset =>
      obtain ⟨next, prop, inside⟩ := within offset rfl
      obtain ⟨base, len, loaded, short, within⟩ := checked.property prop inside
      have range : cint len = len := by
        simp only [INT_MAX] at short
        rw [cint, Int.bmod_eq_of_le (by omega) (by omega)]
      simp only [loaded, Option.bind_eq_bind, Option.bind_some, range]
      rw [valueStart] at within
      by_cases shifted : fdtHeader fdt .version < 0x10 ∧ (offset + FDT_PROPERTY_SIZE) % 8 ≠ 0 ∧ len ≥ 8
      · rw [if_pos shifted] at within ⊢
        refine ⟨_, rfl, ?_⟩
        rintro p n ⟨⟩
        exact ⟨by omega, by omega⟩
      · rw [if_neg shifted] at within ⊢
        refine ⟨_, rfl, ?_⟩
        rintro p n ⟨⟩
        exact ⟨by omega, by omega⟩

/-- Only the NUL that a string is compared with may stand outside, behind a list that ends the
buffer. -/
theorem stringlistContains_beyond {p : ℕ} {listlen : Int} {str : List UInt8} (nonneg : 0 ≤ listlen)
    (inside : p + listlen.toNat ≤ fdt.length) (beyond : fdtStringlistContains fdt p listlen str = none) :
    p + listlen.toNat = fdt.length := by
  fun_induction fdtStringlistContains fdt p listlen str with
  | case1 => cases beyond
  | case2 p listlen long missing =>
      have outside : ¬ p + (str.length + 1) ≤ fdt.length := fun within => load_inside within missing
      omega
  | case3 => cases beyond
  | case4 p listlen long s loaded other missing => exact absurd missing (load_inside inside)
  | case5 p listlen long s loaded other list whole more skipped ih =>
      have length := length_of_load whole
      have first : skipped ≤ list.length := by
        have shorter := List.takeWhile_append_dropWhile (p := (· ≠ (0 : UInt8))) (l := list)
        have rest : list.dropWhile (· ≠ 0) ≠ [] := by
          intro none
          rw [List.dropWhile_eq_nil_iff] at none
          simpa using none 0 more
        have sizes := congrArg List.length shorter
        have positive := List.length_pos_of_ne_nil rest
        rw [List.length_append] at sizes
        simp only [skipped]
        omega
      have later := ih (by omega) (by omega) beyond
      omega
  | case6 => cases beyond

theorem Checked.nodeCheckCompatible (checked : Checked fdt) {node : Int} {compatible : List UInt8}
    (beyond : fdtNodeCheckCompatible fdt node compatible = none) :
    ∃ p len, fdtGetprop fdt node (nameBytes "compatible".toList) = some (.ok (p, len)) ∧
      p + len.toNat = fdt.length := by
  obtain ⟨r, found, within⟩ := checked.getprop node (nameBytes "compatible".toList)
  rw [fdtNodeCheckCompatible, found, Option.bind_eq_bind, Option.bind_some] at beyond
  cases r with
  | error errno => cases beyond
  | ok value =>
      obtain ⟨p, len⟩ := value
      obtain ⟨nonneg, inside⟩ := within p len rfl
      refine ⟨p, len, found, ?_⟩
      cases tested : fdtStringlistContains fdt p len compatible with
      | none => exact stringlistContains_beyond nonneg inside tested
      | some contained => simp [tested] at beyond

/-! What `lib/fdtutil.c` and the sums of `lib/dt.c` read. -/

theorem Checked.readReg (checked : Checked fdt) (node : Int) : fdtutilReadReg fdt node ≠ none := by
  obtain ⟨r, found, within⟩ := checked.getprop node (nameBytes "reg".toList)
  rw [fdtutilReadReg, found, Option.bind_eq_bind, Option.bind_some]
  cases r with
  | error errno => simp
  | ok value =>
      obtain ⟨p, len⟩ := value
      obtain ⟨nonneg, inside⟩ := within p len rfl
      by_cases size : len ≠ 16
      · simp [size]
      · obtain ⟨low, first⟩ := Option.ne_none_iff_exists'.mp (@load_inside fdt p 8 (by omega))
        obtain ⟨high, second⟩ := Option.ne_none_iff_exists'.mp (@load_inside fdt (p + 8) 8 (by omega))
        simp [size, first, second]

theorem Checked.readU64 (checked : Checked fdt) (node : Int) (name : String) : fdtutilReadU64 fdt node name ≠ none := by
  obtain ⟨r, found, within⟩ := checked.getprop node (nameBytes name.toList)
  rw [fdtutilReadU64, found, Option.bind_eq_bind, Option.bind_some]
  cases r with
  | error errno => simp
  | ok value =>
      obtain ⟨p, len⟩ := value
      obtain ⟨nonneg, inside⟩ := within p len rfl
      by_cases size : len ≠ 8
      · simp [size]
      · obtain ⟨cell, loaded⟩ := Option.ne_none_iff_exists'.mp (@load_inside fdt p 8 (by omega))
        simp [size, loaded]

theorem Checked.readCpulist (checked : Checked fdt) (node : Int) (name : String) :
    fdtutilReadCpulist fdt node name ≠ none := by
  obtain ⟨r, found, within⟩ := checked.getprop node (nameBytes name.toList)
  rw [fdtutilReadCpulist, found, Option.bind_eq_bind, Option.bind_some]
  cases r with
  | error errno => simp
  | ok value =>
      obtain ⟨p, len⟩ := value
      obtain ⟨nonneg, inside⟩ := within p len rfl
      obtain ⟨cells, loaded⟩ := Option.ne_none_iff_exists'.mp (load_inside inside)
      simp [loaded]

theorem Checked.forEachSubnode (checked : Checked fdt) {σ : Type} {body : Int → σ → Option (Except Int σ)}
    (safe : ∀ node s, body node s ≠ none) (parent : Int) (s : σ) : fdtForEachSubnode fdt parent s body ≠ none := by
  obtain ⟨first, found⟩ := Option.ne_none_iff_exists'.mp (checked.firstSubnode parent)
  rw [fdtForEachSubnode, found, Option.bind_eq_bind, Option.bind_some]
  clear found
  fun_induction Fdt.forEachSubnode fdt body first s with
  | case1 | case3 => simp
  | case2 node s inside missing => exact absurd missing (safe node s)
  | case4 node s inside s' ran missing => exact absurd missing (checked.nextSubnode node)
  | case5 node s inside s' ran next found ih => exact ih

theorem Checked.sumChunks (checked : Checked fdt) (resources : Int) : Fdt.sumChunks fdt resources ≠ none := by
  apply checked.forEachSubnode
  intro node total
  obtain ⟨name, found⟩ := Option.ne_none_iff_exists'.mp (checked.getName node)
  obtain ⟨reg, read⟩ := Option.ne_none_iff_exists'.mp (checked.readReg node)
  rw [found, read, Option.bind_eq_bind, Option.bind_some]
  cases name with
  | error errno => simp
  | ok name =>
      dsimp only
      split
      · cases reg <;> simp
      · simp

theorem Checked.sumInstanceMemory (checked : Checked fdt) : Fdt.sumInstanceMemory fdt ≠ none := by
  obtain ⟨instances, found⟩ := Option.ne_none_iff_exists'.mp (checked.pathOffset (nameBytes INSTANCES_PATH.toList))
  rw [Fdt.sumInstanceMemory, found, Option.bind_eq_bind, Option.bind_some]
  split
  · simp
  · apply checked.forEachSubnode
    intro node total
    obtain ⟨res, found⟩ := Option.ne_none_iff_exists'.mp (checked.subnodeOffset node (nameBytes "resources".toList))
    obtain ⟨bytes, read⟩ := Option.ne_none_iff_exists'.mp (checked.readU64 res "memory-bytes")
    rw [found, Option.bind_eq_bind, Option.bind_some, read]
    split
    · simp
    · cases bytes <;> simp

end Safety

/-- Bytes that pass `fdtutil_check` may be anything behind the header: no reader leaves the buffer on
them, from any offset, and every value that is handed out lies in it. Only the test for a compatible
string may read on, by the byte behind a value that ends the buffer. -/
theorem fdtutilCheck_safe (fdt : List UInt8) (accepted : fdtutilCheck fdt = 0) (offset : Int) (name : List UInt8) :
    fdtNextTag fdt offset ≠ none ∧ (∀ depth, fdtNextNode fdt offset depth ≠ none) ∧
      fdtFirstSubnode fdt offset ≠ none ∧ fdtNextSubnode fdt offset ≠ none ∧ fdtGetName fdt offset ≠ none ∧
      fdtSubnodeOffset fdt offset name ≠ none ∧ fdtPathOffset fdt name ≠ none ∧
      (∃ r, fdtGetprop fdt offset name = some r ∧
        ∀ p len, r = .ok (p, len) → 0 ≤ len ∧ p + len.toNat ≤ fdt.length) ∧
      (fdtNodeCheckCompatible fdt offset name ≠ none ∨
        ∃ p len, fdtGetprop fdt offset (nameBytes "compatible".toList) = some (.ok (p, len)) ∧
          p + len.toNat = fdt.length) ∧
      fdtutilReadReg fdt offset ≠ none ∧ (∀ prop, fdtutilReadU64 fdt offset prop ≠ none) ∧
      (∀ prop, fdtutilReadCpulist fdt offset prop ≠ none) ∧
      sumChunks fdt offset ≠ none ∧ sumInstanceMemory fdt ≠ none := by
  have checked := fdtutilCheck_checked accepted
  have compatible : fdtNodeCheckCompatible fdt offset name ≠ none ∨
      ∃ p len, fdtGetprop fdt offset (nameBytes "compatible".toList) = some (.ok (p, len)) ∧
        p + len.toNat = fdt.length := by
    by_cases beyond : fdtNodeCheckCompatible fdt offset name = none
    · exact .inr (checked.nodeCheckCompatible beyond)
    · exact .inl beyond
  exact ⟨checked.nextTag offset, checked.nextNode offset, checked.firstSubnode offset, checked.nextSubnode offset,
    checked.getName offset, checked.subnodeOffset offset name, checked.pathOffset name, checked.getprop offset name,
    compatible, checked.readReg offset, checked.readU64 offset, checked.readCpulist offset, checked.sumChunks offset,
    checked.sumInstanceMemory⟩

/-- A header with nothing but a property that claims to be longer than the buffer. -/
def truncatedTree : List UInt8 :=
  [FDT_MAGIC, 52, 40, 52, 52, 17, 16, 0, 0, 12, 3, 255, 0].flatMap (encode 4)

theorem fdtutilCheck_safe_truncated :
    fdtutilCheck truncatedTree = 0 ∧ fdtNextTag truncatedTree 0 ≠ none ∧ fdtPathOffset truncatedTree [0x2f] ≠ none := by
  have accepted : fdtutilCheck truncatedTree = 0 := by decide +kernel
  have safe := fdtutilCheck_safe truncatedTree accepted 0 [0x2f]
  exact ⟨accepted, safe.1, safe.2.2.2.2.2.2.1⟩

/-- A root whose compatible string has no NUL and ends the buffer. -/
def bareCompatible : List UInt8 :=
  [FDT_MAGIC, 99, 52, 40, 40, 17, 16, 0, 11, 47].flatMap (encode 4) ++ nameBytes "compatible".toList ++ [0, 0] ++
    [FdtTag.beginNode.word, 0, FdtTag.prop.word, 27, 0].flatMap (encode 4) ++
    nameBytes PCI_HOST_BRIDGE_COMPATIBLE.toList

/-- It is accepted, and the test for that string leaves the buffer. -/
example : fdtutilCheck bareCompatible = 0 ∧
    fdtNodeCheckCompatible bareCompatible 0 (nameBytes PCI_HOST_BRIDGE_COMPATIBLE.toList) = none := by
  decide +kernel

end Kmorph.Fdt
