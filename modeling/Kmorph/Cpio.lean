import Kmorph.CpioCore
import Mathlib.Data.List.Infix
import Mathlib.Data.List.Nodup

/-!
What the archive holds. `Appends` says of a call that it writes entries behind
those before, within the block it reserved, or fails for want of memory; calls
in a row append the entries of all.
-/

namespace Kmorph.Cpio

/-- What an entry is to hold; its inode is the next one. -/
structure Content where
  name : List UInt8
  mode : UInt32
  data : List UInt8
deriving Repr, DecidableEq

def numbered (ino : UInt32) : List Content → List Newc.Entry
  | [] => []
  | e :: rest => ⟨ino.toNat, e.mode.toNat, e.name, e.data⟩ :: numbered (ino + 1) rest

/-- The ancestors of a path: what precedes each slash, the shortest first. -/
def ancestors (path : List UInt8) : List (List UInt8) :=
  path.inits.filter fun front => (front ++ [SLASH]).isPrefixOf path

def File.name (f : File) : List UInt8 := f.path.dropWhile (· = SLASH)

/-- The entries of a file: its directories, then itself. -/
def File.contents (f : File) : List Content :=
  (ancestors f.name).map (⟨·, S_IFDIR ||| 0o755, []⟩) ++
    [⟨f.name, S_IFREG ||| (f.mode &&& 0o7777), f.data⟩]

def trailer : Content := ⟨Newc.TRAILER, 0, []⟩

/-- A block holds the bytes, and is what the capacity says. -/
structure Sound (c : Cpio) : Prop where
  aligned : 4 ∣ c.data.length
  within : c.data.length ≤ c.block
  cap : c.cap = c.block
  grown : c.block = 0 ∨ ∃ k ≤ 50, c.block = 4096 * 2 ^ k
  safe : c.overrun = false

/-- There is memory for an archive of this length. -/
def Ample (granted : ℕ → Bool) (total : ℕ) : Prop :=
  ∀ size ≤ max 4096 (2 * (total + 8)), granted size = true

theorem init_sound : Sound CPIO_INIT :=
  ⟨by decide, Nat.le_refl _, rfl, Or.inl rfl, rfl⟩

theorem Ample.mono {granted : ℕ → Bool} {total less : ℕ} (ample : Ample granted total)
    (le : less ≤ total) : Ample granted less := by
  intro size small
  exact ample size (by omega)

theorem growCap_power {need : ℕ} (large : need ≤ 2 ^ 63) {turns k : ℕ} (enough : 51 < k + turns)
    (inside : k ≤ 51) (low : 4096 * 2 ^ k ≤ max 4096 (2 * need)) :
    ∃ j ≤ 51, growCap need turns (4096 * 2 ^ k) = some (4096 * 2 ^ j) ∧ need ≤ 4096 * 2 ^ j ∧
      4096 * 2 ^ j ≤ max 4096 (2 * need) := by
  induction turns generalizing k with
  | zero => omega
  | succ turns ih =>
      rw [growCap]
      split
      · rename_i short
        have notLast : k ≠ 51 := by
          rintro rfl
          omega
        have below : 2 ^ k ≤ 2 ^ 50 := Nat.pow_le_pow_right (by decide) (by omega)
        have positive : 4096 * 2 ^ k ≠ 0 := by
          have := Nat.two_pow_pos k
          omega
        have doubled : 2 * (4096 * 2 ^ k) % 2 ^ 64 = 4096 * 2 ^ (k + 1) := by
          rw [Nat.mod_eq_of_lt (by omega), Nat.pow_succ]
          omega
        rw [if_pos positive, doubled]
        refine ih (by omega) (by omega) ?_
        rw [Nat.pow_succ]
        omega
      · rename_i reached
        exact ⟨k, inside, rfl, by omega, low⟩

theorem growCap_spec {need cap : ℕ} (large : need ≤ 2 ^ 63) (short : cap < need)
    (grown : cap = 0 ∨ ∃ k ≤ 50, cap = 4096 * 2 ^ k) :
    ∃ j ≤ 51, growCap need 66 cap = some (4096 * 2 ^ j) ∧ need ≤ 4096 * 2 ^ j ∧
      4096 * 2 ^ j ≤ max 4096 (2 * need) := by
  rcases grown with rfl | ⟨k, small, rfl⟩
  · rw [growCap, if_pos short, if_neg (by simp)]
    exact growCap_power (k := 0) large (by omega) (by omega) (by omega)
  · exact growCap_power large (by omega) (by omega) (by omega)

theorem Sound.block_le {c : Cpio} (sound : c.Sound) : c.block ≤ 2 ^ 62 := by
  rcases sound.grown with empty | ⟨k, small, size⟩
  · omega
  · have : 2 ^ k ≤ 2 ^ 50 := Nat.pow_le_pow_right (by decide) small
    omega

section Calls

variable {granted : ℕ → Bool} {c : Cpio}

theorem reserve_spec (limit : ∀ size, granted size = true → size < 2 ^ 63) (sound : c.Sound)
    {more : ℕ} (small : more ≤ 2 ^ 33) :
    ∃ ret c', reserve granted c more = some (ret, c') ∧ ret ≤ 0 ∧ c'.overrun = false ∧
      (ret = 0 → c'.Sound ∧ c'.data = c.data ∧ c'.ino = c.ino ∧ c.data.length + more ≤ c'.block) ∧
      (ret ≠ 0 → ∃ size ≤ max 4096 (2 * (c.data.length + more)), granted size = false) := by
  have bound := sound.block_le
  have within := sound.within
  have whole : (c.data.length + more) % 2 ^ 64 = c.data.length + more := Nat.mod_eq_of_lt (by omega)
  simp only [reserve, whole, sound.cap]
  split
  · rename_i room
    exact ⟨0, c, rfl, Int.le_refl 0, sound.safe, fun _ => ⟨sound, rfl, rfl, room⟩,
      fun failed => absurd rfl failed⟩
  · rename_i short
    obtain ⟨j, inside, found, reached, low⟩ :=
      growCap_spec (by omega) (Nat.lt_of_not_le short) sound.grown
    rw [found, Option.map_some]
    by_cases grant : granted (4096 * 2 ^ j) = true
    · rw [if_pos grant]
      have notLast : j ≠ 51 := by
        rintro rfl
        have := limit _ grant
        omega
      refine ⟨0, _, rfl, Int.le_refl 0, sound.safe,
        fun _ => ⟨⟨sound.aligned, ?_, rfl, ?_, sound.safe⟩, rfl, rfl, reached⟩,
        fun failed => absurd rfl failed⟩
      · exact Nat.le_trans (Nat.le_add_right _ _) reached
      · exact Or.inr ⟨j, by omega, rfl⟩
    · rw [if_neg grant]
      exact ⟨-ENOMEM, _, rfl, by decide, sound.safe, fun ok => absurd ok (by decide),
        fun _ => ⟨_, low, by simpa using grant⟩⟩

theorem put_within {bytes : List UInt8} (room : c.data.length + bytes.length ≤ c.block) :
    c.put bytes = { c with data := c.data ++ bytes } := by
  have inside : ¬ c.block < c.data.length + bytes.length := by omega
  simp [put, inside]

theorem padding_cons {n : ℕ} (unaligned : n % 4 ≠ 0) : Newc.padding n = 0 :: Newc.padding (n + 1) := by
  have more : Newc.align n - n = Newc.align (n + 1) - (n + 1) + 1 := by
    unfold Newc.align
    omega
  rw [Newc.padding, more, List.replicate_succ, ← Newc.padding]

theorem pad4_within (room : Newc.align c.data.length ≤ c.block) :
    c.pad4 = { c with data := c.data ++ Newc.padding c.data.length } := by
  induction c using pad4.induct with
  | case1 c unaligned ih =>
      have same : Newc.align (c.data.length + 1) = Newc.align c.data.length := by
        unfold Newc.align
        omega
      have behind := (Newc.align_eq (c.data.length + 1)).1
      have zero := @put_within c [0] (by rw [List.length_singleton]; omega)
      rw [pad4, if_pos unaligned, ih]
      · rw [zero, padding_cons unaligned]
        simp
      · rw [zero]
        simpa [same] using room
  | case2 c aligned =>
      have unpadded : Newc.padding c.data.length = [] := by
        have : Newc.align c.data.length - c.data.length = 0 := by
          unfold Newc.align
          omega
        rw [Newc.padding, this]
        rfl
      rw [pad4, if_neg aligned, unpadded, List.append_nil]

theorem padding_add {front : ℕ} (aligned : 4 ∣ front) (n : ℕ) :
    Newc.padding (front + n) = Newc.padding n := by
  rw [Newc.padding, Newc.align_add aligned, Nat.add_sub_add_left, ← Newc.padding]

/-- The name and its NUL, or the data, with the zeros behind. -/
theorem put_pad4_within {bytes : List UInt8} {front : ℕ} (aligned : 4 ∣ front) {passed : ℕ}
    (place : c.data.length = front + passed)
    (room : front + Newc.align (passed + bytes.length) ≤ c.block) :
    (c.put bytes).pad4 =
      { c with data := c.data ++ (bytes ++ Newc.padding (passed + bytes.length)) } := by
  have behind := (Newc.align_eq (passed + bytes.length)).1
  have written := @put_within c bytes (by omega)
  have sum : (c.data ++ bytes).length = front + (passed + bytes.length) := by
    rw [List.length_append]
    omega
  rw [written, pad4_within]
  · simp only [sum, padding_add aligned, List.append_assoc]
  · rw [sum, Newc.align_add aligned]
    exact room

/-- What `entry` writes once it has reserved the room, slack for either padding included. -/
theorem entry_writes (aligned : 4 ∣ c.data.length) {name data : List UInt8} (mode : UInt32)
    (short : name.length < 256) (dataFits : data.length < 2 ^ 32)
    (room : c.data.length + (NEWC_HEADER + (name.length + 1) + data.length + 8) ≤ c.block) :
    (((({ c.put (Newc.MAGIC ++ Hexadecimal.encodeFields 8 [c.ino.toNat, mode.toNat, 0, 0, 1, 0,
        data.length % 2 ^ 32, 0, 0, 0, 0, (name.length + 1) % 2 ^ 32, 0]) with
          ino := c.ino + 1 }).put (name ++ [0])).pad4).put data).pad4 =
      { c with
        data := c.data ++ Newc.encode ⟨c.ino.toNat, mode.toNat, name, data⟩
        ino := c.ino + 1 } := by
  have nameEnd := Newc.align_eq (NEWC_HEADER + (name.length + 1))
  have dataEnd := Newc.align_eq data.length
  have namePadded := Newc.length_padding (NEWC_HEADER + (name.length + 1))
  rw [Nat.mod_eq_of_lt dataFits, Nat.mod_eq_of_lt (show name.length + 1 < 2 ^ 32 by omega), ← Newc.header]
  have size := Newc.length_header c.ino.toNat mode.toNat data.length (name.length + 1)
  have counted : (name ++ [0]).length = name.length + 1 := by simp
  have hdr := @put_within c (Newc.header c.ino.toNat mode.toNat data.length (name.length + 1))
    (by rw [size, Newc.HEADER]; rw [NEWC_HEADER] at room; omega)
  rw [hdr, @put_pad4_within _ (name ++ [0]) c.data.length aligned NEWC_HEADER,
    @put_pad4_within _ data (c.data.length + Newc.align (NEWC_HEADER + (name.length + 1)))
      (Nat.dvd_add aligned nameEnd.2.2) 0]
  · simp only [Newc.encode, counted, Nat.zero_add, List.append_assoc]
    rfl
  · simp only [List.length_append, size, counted]
    rw [Newc.HEADER, NEWC_HEADER] at *
    omega
  · rw [Nat.zero_add]
    show _ ≤ c.block
    omega
  · rw [List.length_append, size]
    rfl
  · rw [counted]
    show _ ≤ c.block
    omega

/-- What a call leaves that is to write these entries. -/
def Appends (granted : ℕ → Bool) (c : Cpio) (es : List Content) (result : Option (Int × Cpio)) :
    Prop :=
  ∃ ret c', result = some (ret, c') ∧ ret ≤ 0 ∧ c'.overrun = false ∧
    (ret = 0 → c'.Sound ∧ c'.data = c.data ++ (numbered c.ino es).flatMap Newc.encode ∧
      c'.ino = c.ino + UInt32.ofNat es.length ∧ ∀ e ∈ es, e.data.length < 2 ^ 32) ∧
    ((∀ e ∈ es, e.data.length < 2 ^ 32) →
      Ample granted (c.data.length + ((numbered c.ino es).flatMap Newc.encode).length) → ret = 0)

theorem entry_appends (limit : ∀ size, granted size = true → size < 2 ^ 63) (sound : c.Sound)
    {name : List UInt8} (short : name.length < 256) (mode : UInt32) (data : List UInt8) :
    Appends granted c [⟨name, mode, data⟩] (entry granted c name mode data) := by
  unfold entry
  by_cases large : data.length > UINT32_MAX
  · rw [if_pos large]
    refine ⟨-EFBIG, c, rfl, by decide, sound.safe, fun ok => absurd ok (by decide), ?_⟩
    intro fits _
    have := fits _ (List.mem_singleton.mpr rfl)
    simp only [UINT32_MAX] at large this
    omega
  · have dataFits : data.length < 2 ^ 32 := by
      simp only [UINT32_MAX] at large
      omega
    have nameEnd := Newc.align_eq (Newc.HEADER + (name.length + 1))
    have dataEnd := Newc.align_eq data.length
    have single : (numbered c.ino [⟨name, mode, data⟩]).flatMap Newc.encode =
        Newc.encode ⟨c.ino.toNat, mode.toNat, name, data⟩ := by
      simp [numbered]
    have length := Newc.length_encode ⟨c.ino.toNat, mode.toNat, name, data⟩
    have sameHeader : NEWC_HEADER = Newc.HEADER := rfl
    simp only at length
    rw [if_neg large]
    obtain ⟨ret, c₁, reserved, negative, safe, ok, failed⟩ := @reserve_spec granted c limit sound
      (NEWC_HEADER + (name.length + 1) + data.length + 8) (by rw [NEWC_HEADER]; omega)
    rw [reserved, andThen]
    by_cases full : ret = 0
    · obtain ⟨sound₁, sameData, sameIno, room⟩ := ok full
      rw [← sameData] at room
      have written := entry_writes sound₁.aligned mode short dataFits room
      rw [if_neg (not_not.mpr full)]
      refine ⟨0, _, congrArg (fun c => some ((0 : Int), c)) written, Int.le_refl 0, safe,
        fun _ => ?_, fun _ _ => rfl⟩
      rw [single, ← sameData, ← sameIno]
      refine ⟨⟨?_, ?_, sound₁.cap, sound₁.grown, safe⟩, rfl, rfl, by simpa using dataFits⟩
      · rw [List.length_append]
        exact Nat.dvd_add sound₁.aligned (Newc.encode_aligned _)
      · rw [List.length_append, sameIno, length]
        show _ ≤ c₁.block
        omega
    · rw [if_pos full]
      refine ⟨ret, c₁, rfl, negative, safe, fun done => absurd done full, ?_⟩
      intro _ ample
      obtain ⟨size, low, refused⟩ := failed full
      rw [single, length] at ample
      have given := ample size (by omega)
      rw [refused] at given
      exact absurd given (by decide)

theorem numbered_append (ino : UInt32) (es more : List Content) :
    numbered ino (es ++ more) = numbered ino es ++ numbered (ino + UInt32.ofNat es.length) more := by
  induction es generalizing ino with
  | nil => simp [numbered]
  | cons e es ih =>
      have next : ino + UInt32.ofNat (es.length + 1) = ino + 1 + UInt32.ofNat es.length := by
        rw [UInt32.ofNat_add, UInt32.add_assoc, UInt32.add_comm (UInt32.ofNat es.length)]
        rfl
      rw [List.cons_append, numbered, numbered, ih, List.length_cons, next, List.cons_append]

theorem Appends.nil (sound : c.Sound) : Appends granted c [] (some (0, c)) :=
  ⟨0, c, rfl, Int.le_refl 0, sound.safe, fun _ => ⟨sound, by simp [numbered], by simp, by simp⟩, fun _ _ => rfl⟩

/-- Two calls in a row, the second only if the first did not fail. -/
theorem Appends.andThen {es more : List Content} {result : Option (Int × Cpio)}
    {rest : Cpio → Option (Int × Cpio)} (first : Appends granted c es result)
    (second : ∀ c', c'.Sound → Appends granted c' more (rest c')) :
    Appends granted c (es ++ more) (andThen result rest) := by
  obtain ⟨ret, c₁, returned, negative, safe, ok, ample⟩ := first
  rw [returned, Cpio.andThen]
  have length : ((numbered c.ino (es ++ more)).flatMap Newc.encode).length =
      ((numbered c.ino es).flatMap Newc.encode).length +
        ((numbered (c.ino + UInt32.ofNat es.length) more).flatMap Newc.encode).length := by
    rw [numbered_append, List.flatMap_append, List.length_append]
  by_cases done : ret = 0
  · obtain ⟨sound₁, data₁, ino₁, fits₁⟩ := ok done
    obtain ⟨ret₂, c₂, returned₂, negative₂, safe₂, ok₂, ample₂⟩ := second c₁ sound₁
    rw [if_neg (not_not.mpr done)]
    refine ⟨ret₂, c₂, returned₂, negative₂, safe₂, ?_, ?_⟩
    · intro done₂
      obtain ⟨sound₂, data₂, ino₂, fits₂⟩ := ok₂ done₂
      refine ⟨sound₂, ?_, ?_, ?_⟩
      · rw [data₂, data₁, ino₁, numbered_append, List.flatMap_append, List.append_assoc]
      · rw [ino₂, ino₁, List.length_append, UInt32.ofNat_add, UInt32.add_assoc]
      · rw [List.forall_mem_append]
        exact ⟨fits₁, fits₂⟩
    · intro fits enough
      refine ample₂ (fun e member => fits e (List.mem_append_right _ member)) ?_
      rw [data₁, ino₁, List.length_append]
      exact enough.mono (by omega)
  · rw [if_pos done]
    refine ⟨ret, c₁, rfl, negative, safe, fun finished => absurd finished done, ?_⟩
    intro fits enough
    exact ample (fun e member => fits e (List.mem_append_left _ member)) (enough.mono (by omega))

theorem ancestors_cons (b : UInt8) (rest : List UInt8) :
    ancestors (b :: rest) =
      (if b = SLASH then [[]] else []) ++ (ancestors rest).map (b :: ·) := by
  have deeper : ((fun front => (front ++ [SLASH]).isPrefixOf (b :: rest)) ∘ (b :: ·)) =
      fun front => (front ++ [SLASH]).isPrefixOf rest := by
    funext front
    simp
  have first : ([] ++ [SLASH]).isPrefixOf (b :: rest) = decide (b = SLASH) := by
    show (SLASH == b && true) = _
    rw [Bool.and_true, beq_eq_decide, decide_eq_decide, eq_comm]
  rw [ancestors, ancestors, List.inits_cons, List.filter_cons, List.filter_map, deeper, first]
  by_cases slash : b = SLASH
  · simp [slash]
  · simp [slash]

theorem addAncestors_appends (limit : ∀ size, granted size = true → size < 2 ^ 63) (sound : c.Sound)
    {passed rest : List UInt8} (short : passed.length + rest.length < 256) :
    Appends granted c ((ancestors rest).map fun a => ⟨passed ++ a, S_IFDIR ||| 0o755, []⟩)
      (addAncestors granted c passed rest) := by
  induction rest generalizing c passed with
  | nil =>
      have none : ancestors [] = [] := by decide
      rw [none]
      exact Appends.nil sound
  | cons b rest ih =>
      rw [List.length_cons] at short
      have shifted : (ancestors rest).map (fun a => (⟨passed ++ [b] ++ a, S_IFDIR ||| 0o755, []⟩ : Content)) =
          ((ancestors rest).map (b :: ·)).map fun a => ⟨passed ++ a, S_IFDIR ||| 0o755, []⟩ := by
        simp
      have later {c : Cpio} (sound : c.Sound) := @ih c sound (passed ++ [b])
        (by rw [List.length_append, List.length_singleton]; omega)
      rw [shifted] at later
      rw [ancestors_cons, addAncestors, List.map_append]
      by_cases slash : b = SLASH
      · rw [if_pos slash, if_pos slash]
        refine Appends.andThen ?_ fun c' sound' => later sound'
        simpa using entry_appends limit sound (by omega) (S_IFDIR ||| 0o755) []
      · rw [if_neg slash, if_neg slash]
        exact later sound

theorem mem_ancestors {path front : List UInt8} (member : front ∈ ancestors path) :
    front.length < path.length := by
  have isFront := (List.mem_filter.mp member).2
  rw [List.isPrefixOf_iff_prefix] at isFront
  have := isFront.length_le
  rw [List.length_append, List.length_singleton] at this
  omega

theorem addFile_appends (limit : ∀ size, granted size = true → size < 2 ^ 63) (sound : c.Sound)
    {f : File} (named : f.name ≠ []) (short : f.name.length < 256) :
    Appends granted c f.contents (addFile granted c f.path f.data f.mode) := by
  have accepted : ¬ (f.name = [] ∨ f.name.length ≥ 256) := not_or.mpr ⟨named, by omega⟩
  have directories := @addAncestors_appends granted c limit sound [] f.name (by simpa using short)
  simp only [List.nil_append] at directories
  show Appends granted c _ (if f.name = [] ∨ f.name.length ≥ 256 then _ else _)
  rw [if_neg accepted]
  exact directories.andThen fun c' sound' => entry_appends limit sound' short _ f.data

theorem addFiles_appends (limit : ∀ size, granted size = true → size < 2 ^ 63) (sound : c.Sound)
    {files : List File} (named : ∀ f ∈ files, f.name ≠ []) (short : ∀ f ∈ files, f.name.length < 256) :
    Appends granted c (files.flatMap File.contents) (addFiles granted c files) := by
  induction files generalizing c with
  | nil => exact Appends.nil sound
  | cons f files ih =>
      rw [List.flatMap_cons, addFiles]
      refine (addFile_appends limit sound (named f (by simp)) (short f (by simp))).andThen ?_
      intro c' sound'
      exact ih sound' (fun other member => named other (by simp [member]))
        (fun other member => short other (by simp [member]))

theorem archive_appends (limit : ∀ size, granted size = true → size < 2 ^ 63) {files : List File}
    (named : ∀ f ∈ files, f.name ≠ []) (short : ∀ f ∈ files, f.name.length < 256) :
    Appends granted CPIO_INIT (files.flatMap File.contents ++ [trailer]) (archive granted files) :=
  (addFiles_appends limit init_sound named short).andThen fun c' sound' =>
    entry_appends limit sound' (by decide) 0 []

end Calls

theorem numbered_ino (ino : UInt32) (es : List Content) :
    (numbered ino es).map Newc.Entry.ino =
      (List.range es.length).map fun i => (ino.toNat + i) % 2 ^ 32 := by
  induction es generalizing ino with
  | nil => rfl
  | cons e es ih =>
      have wrapped (i : ℕ) : ((ino + 1).toNat + i) % 2 ^ 32 = (ino.toNat + (i + 1)) % 2 ^ 32 := by
        rw [UInt32.toNat_add]
        show ((ino.toNat + 1) % 2 ^ 32 + i) % 2 ^ 32 = _
        omega
      rw [numbered, List.map_cons, ih, List.length_cons, List.range_succ_eq_map, List.map_cons,
        List.map_map]
      refine congr (congrArg _ ?_) (List.map_congr_left fun i _ => wrapped i)
      have := ino.toNat_lt
      show ino.toNat = _
      omega

theorem numbered_nodup (ino : UInt32) {es : List Content} (few : es.length ≤ 2 ^ 32) :
    ((numbered ino es).map Newc.Entry.ino).Nodup := by
  rw [numbered_ino]
  refine List.Nodup.map_on ?_ List.nodup_range
  intro i small j smaller same
  rw [List.mem_range] at small smaller
  omega

theorem numbered_contents (ino : UInt32) (es : List Content) :
    (numbered ino es).map (fun e => (e.name, e.mode, e.data)) =
      es.map fun e => (e.name, e.mode.toNat, e.data) := by
  induction es generalizing ino with
  | nil => rfl
  | cons e es ih => rw [numbered, List.map_cons, ih, List.map_cons]

theorem numbered_fits {ino : UInt32} {es : List Content} (short : ∀ e ∈ es, e.name.length < 256)
    (fits : ∀ e ∈ es, e.data.length < 2 ^ 32) : ∀ e ∈ numbered ino es, e.Fits := by
  induction es generalizing ino with
  | nil => simp [numbered]
  | cons e es ih =>
      rw [List.forall_mem_cons] at short fits
      rw [numbered, List.forall_mem_cons]
      refine ⟨⟨ino.toNat_lt, e.mode.toNat_lt, ?_, fits.1⟩, ih short.2 fits.2⟩
      have := short.1
      show e.name.length + 1 < 2 ^ 32
      omega

theorem numbered_named {ino : UInt32} {es : List Content} {name : List UInt8}
    (other : ∀ e ∈ es, e.name ≠ name) : ∀ e ∈ numbered ino es, e.name ≠ name := by
  induction es generalizing ino with
  | nil => simp [numbered]
  | cons e es ih =>
      rw [List.forall_mem_cons] at other
      rw [numbered, List.forall_mem_cons]
      exact ⟨other.1, ih other.2⟩

/-- A reader finds these entries from the offset on and then the trailer, which ends where the
bytes end. -/
def Holds (buf : List UInt8) (offset : ℕ) (es : List Content) : Prop :=
  ∃ entries last, Newc.read buf offset = some (entries, last, buf.length) ∧
    entries.map (fun p => (p.2.name, p.2.mode, p.2.data)) =
      es.map (fun e => (e.name, e.mode.toNat, e.data)) ∧
    last.2.name = Newc.TRAILER ∧ (∀ p ∈ entries ++ [last], 4 ∣ p.1) ∧
    ((entries ++ [last]).map fun p => p.2.ino).Nodup

theorem holds_of_written {front : List UInt8} (aligned : 4 ∣ front.length) {es : List Content}
    (short : ∀ e ∈ es, e.name.length < 256) (fits : ∀ e ∈ es, e.data.length < 2 ^ 32)
    (named : ∀ e ∈ es, e.name ≠ Newc.TRAILER) (few : es.length < 2 ^ 32) :
    Holds (front ++ (numbered 1 (es ++ [trailer])).flatMap Newc.encode) front.length es := by
  have split := numbered_append 1 es [trailer]
  generalize 1 + UInt32.ofNat es.length = ino at split
  have last : numbered ino [trailer] = [⟨ino.toNat, 0, Newc.TRAILER, []⟩] := rfl
  have lastFits := @numbered_fits ino [trailer] (by decide) (by decide)
  rw [last, List.forall_mem_singleton] at lastFits
  have bytes : (numbered 1 (es ++ [trailer])).flatMap Newc.encode =
      (numbered 1 es).flatMap Newc.encode ++ (Newc.encode ⟨ino.toNat, 0, Newc.TRAILER, []⟩ ++ []) := by
    rw [split, last, List.flatMap_append, List.flatMap_cons]
    rfl
  have read := Newc.read_encode aligned (@numbered_fits 1 es short fits) (@numbered_named 1 es _ named)
    lastFits rfl []
  rw [← bytes] at read
  refine ⟨Newc.placed front.length (numbered 1 es), (front.length +
    ((numbered 1 es).flatMap Newc.encode).length, ⟨ino.toNat, 0, Newc.TRAILER, []⟩), ?_, ?_, rfl, ?_, ?_⟩
  · rw [read, bytes]
    simp only [List.length_append, List.append_nil, Nat.add_assoc]
  · rw [← numbered_contents 1 es, ← Newc.placed_map_snd front.length (numbered 1 es), List.map_map]
    simp only [Newc.placed_map_snd]
    rfl
  · rw [List.forall_mem_append, List.forall_mem_singleton]
    exact ⟨Newc.placed_aligned aligned _, Nat.dvd_add aligned (Newc.flatMap_encode_aligned _)⟩
  · have distinct := @numbered_nodup 1 (es ++ [trailer]) (by rw [List.length_append]; exact few)
    rw [split, last, List.map_append] at distinct
    rw [List.map_append]
    have inos : (Newc.placed front.length (numbered 1 es)).map (fun p => p.2.ino) =
        (numbered 1 es).map Newc.Entry.ino := by
      rw [← Newc.placed_map_snd front.length (numbered 1 es), List.map_map, Newc.placed_map_snd]
      rfl
    rw [inos]
    exact distinct

end Kmorph.Cpio
