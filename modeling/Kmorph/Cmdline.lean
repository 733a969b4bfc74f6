import Kmorph.LifecycleCore

/-! The words of the successor's command line, `successor_cmdline` of `kmorph/arm.c`. -/

namespace Kmorph

def cmdlineWords (cmdline : List Char) : List (List Char) := (cmdline.splitOn ' ').filter (· ≠ [])

section Words

variable {word : List Char}

theorem splitOn_word {rest : List Char} (noSpace : ' ' ∉ word) :
    (word ++ rest).splitOn ' ' = (rest.splitOn ' ').modifyHead (word ++ ·) := by
  induction word with
  | nil => exact (congrFun List.modifyHead_id _).symm
  | cons c word ih =>
      obtain ⟨other, noSpace⟩ := not_or.mp (mt List.mem_cons.mpr noSpace)
      rw [List.cons_append, List.splitOn_cons_eq_if_modifyHead, if_neg (by simpa using Ne.symm other), ih noSpace,
        List.modifyHead_modifyHead]
      rfl

theorem ends_iff {rest head : List Char} {tail : List (List Char)} (split : rest.splitOn ' ' = head :: tail) :
    rest.head?.all (· = ' ') = true ↔ head = [] := by
  cases rest with
  | nil =>
      cases split
      simp
  | cons c rest =>
      rw [List.splitOn_cons_eq_if_modifyHead] at split
      obtain ⟨first, more, below⟩ := List.exists_cons_of_ne_nil (List.splitOn_ne_nil ' ' rest)
      rw [below] at split
      by_cases blank : c = ' '
      · simp only [blank, beq_self_eq_true, if_true, List.cons.injEq] at split
        simp [blank, ← split.1]
      · simp only [beq_iff_eq, blank, if_false, List.modifyHead_cons, List.cons.injEq] at split
        simp [blank, ← split.1]

theorem isPrefixOf_drop {c : Char} {p : List Char} (found : word ≠ []) (isPrefix : word.isPrefixOf (c :: p) = true) :
    c :: p = word ++ p.drop (word.length - 1) := by
  cases word with
  | nil => exact absurd rfl found
  | cons d word =>
      obtain ⟨rest, whole⟩ := List.isPrefixOf_iff_prefix.mp isPrefix
      cases whole
      simp

theorem splitOn_starts {p head : List Char} {tail : List (List Char)} (split : p.splitOn ' ' = head :: tail) :
    head <+: p := by
  rw [← @List.intercalate_splitOn _ p _ _ ' ', split]
  cases tail with
  | nil => simp
  | cons second tail =>
      rw [List.intercalate_cons_cons]
      exact (List.prefix_append _ _).trans (List.prefix_append _ _)

/-- A word is found where it is all that stands between two blanks, also behind a match that is not. -/
theorem hasWordFrom_iff (found : word ≠ []) (noSpace : ' ' ∉ word) (before : Option Char) (p : List Char) :
    hasWordFrom word before p = true ↔
      before.all (· = ' ') = true ∧ (p.splitOn ' ').head? = some word ∨ word ∈ (p.splitOn ' ').tail := by
  fun_induction hasWordFrom word before p with
  | case1 before => simp [Ne.symm found]
  | case2 before c p isPrefix rest starts ends both =>
      obtain ⟨head, tail, split⟩ := List.exists_cons_of_ne_nil (List.splitOn_ne_nil ' ' rest)
      obtain ⟨atStart, atEnd⟩ := Bool.and_eq_true_iff.mp both
      obtain rfl := (ends_iff split).mp atEnd
      rw [isPrefixOf_drop found isPrefix, splitOn_word noSpace, split]
      simpa using .inl atStart
  | case3 before c p isPrefix rest starts ends both ih =>
      obtain ⟨head, tail, split⟩ := List.exists_cons_of_ne_nil (List.splitOn_ne_nil ' ' rest)
      have inside : word.getLast?.all (· = ' ') = false := by
        rw [List.getLast?_eq_some_getLast found, Option.all_some, decide_eq_false_iff_not]
        intro blank
        exact noSpace (blank ▸ List.getLast_mem found)
      have apart : ¬ (before.all (· = ' ') = true ∧ head = []) := by
        rintro ⟨atStart, whole⟩
        exact both (Bool.and_eq_true_iff.mpr ⟨atStart, (ends_iff split).mpr whole⟩)
      refine ih.trans ?_
      rw [isPrefixOf_drop found isPrefix, splitOn_word noSpace, split, inside]
      simpa using fun atStart whole => absurd ⟨atStart, whole⟩ apart
  | case4 before c p other ih =>
      obtain ⟨head, tail, split⟩ := List.exists_cons_of_ne_nil (List.splitOn_ne_nil ' ' p)
      refine ih.trans ?_
      rw [List.splitOn_cons_eq_if_modifyHead, split]
      by_cases blank : c = ' '
      · simp [blank, Ne.symm found, @eq_comm _ head]
      · have notFirst : c :: head ≠ word := by
          rintro rfl
          exact other (List.isPrefixOf_iff_prefix.mpr (List.cons_prefix_cons.mpr ⟨rfl, splitOn_starts split⟩))
        simp [blank, notFirst]

theorem cmdlineHasWord_iff (found : word ≠ []) (noSpace : ' ' ∉ word) (cmdline : List Char) :
    cmdlineHasWord cmdline word = true ↔ word ∈ cmdline.splitOn ' ' := by
  obtain ⟨head, tail, split⟩ := List.exists_cons_of_ne_nil (List.splitOn_ne_nil ' ' cmdline)
  rw [cmdlineHasWord, hasWordFrom_iff found noSpace, split]
  simp [@eq_comm _ head]

end Words

/-- The successor is given the words of the config, in their order, and behind them what a dump needs
if one is configured and they do not have it. -/
theorem successorCmdline_words (cfg : KmorphConfig) :
    cmdlineWords ((successorCmdline true cfg).getD []) =
      (let given := cmdlineWords (cfg.cmdline.getD [])
      if cfg.dump.isSome ∧ DUMP_CMDLINE_PARAM ∉ given then given ++ [DUMP_CMDLINE_PARAM] else given) := by
  have has (cmdline : List Char) : cmdlineHasWord cmdline DUMP_CMDLINE_PARAM = true ↔
      DUMP_CMDLINE_PARAM ∈ cmdlineWords cmdline := by
    rw [cmdlineHasWord_iff (by decide) (by decide), cmdlineWords, List.mem_filter]
    exact (and_iff_left (by decide)).symm
  simp only [successorCmdline, has]
  cases dump : cfg.dump with
  | none => simp
  | some path =>
      by_cases given : DUMP_CMDLINE_PARAM ∈ cmdlineWords (cfg.cmdline.getD [])
      · simp [given]
      · simp only [given, reduceCtorEq, or_self, if_false, if_true, Option.getD_some, Option.isSome_some, not_false_eq_true,
          and_self]
        generalize cfg.cmdline.getD [] = base
        cases base with
        | nil => decide
        | cons c rest =>
            have blank : ((c :: rest) ++ [' '] ++ DUMP_CMDLINE_PARAM).splitOn ' ' =
                (c :: rest).splitOn ' ' ++ [DUMP_CMDLINE_PARAM] := by
              rw [List.append_assoc, List.singleton_append, List.splitOn_append_cons_self]
              rfl
            rw [if_pos (List.cons_ne_nil c rest), cmdlineWords, blank, List.filter_append]
            rfl

end Kmorph
