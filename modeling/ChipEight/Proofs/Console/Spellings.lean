import Mathlib.Data.Nat.Digits.Defs
import Mathlib.Tactic.Ring
import ChipEight.Proofs.Console.ArgumentReader

/-!
# Spellings of the command line

The options and the path may stand in any order, the number of an option after an equals sign or as
the next argument, with a plus sign and zeros in front.

1. A numeral is read as the number that its figures stand for, however many there are, if that
   number fits the option (`unsigned?_chars`).
2. A function that keeps the rules takes option after option off the front of a command line, and
   the path lets each of them pass (`Rules.parse_choice`, `Rules.parse_path_choice`).  So it reads a
   whole line as if all numbers were settled on the path alone (`Rules.parse_spelled`).
3. These numbers are the given ones (`Holds.withNumber`), unless one of them does not fit
   (`every_spelling_parses`).
-/

namespace ChipEight

namespace CommandLine

/-! ## Numerals -/

/-- A number as it may be typed: a plus sign or none, and decimal figures, the highest one first. -/
structure Numeral where
  plus : Bool
  figures : List (Fin 10)
  figures_ne_nil : figures ≠ [] := by decide

/-- The character of a figure. -/
def figure (d : Fin 10) : Char := Decimal.digit d.val

namespace Numeral

/-- The characters of a numeral. -/
def chars (n : Numeral) : List Char := (if n.plus then ['+'] else []) ++ n.figures.map figure

/-- The number that a numeral stands for. -/
def value (n : Numeral) : Nat := Nat.ofDigits 10 (n.figures.map Fin.val).reverse

end Numeral

theorem figure_ne_sign (d : Fin 10) : figure d ≠ '+' ∧ figure d ≠ '-' := by
  revert d
  decide

theorem extend_figures (m : Nat) (figures : List (Fin 10)) :
    Decimal.extend m (figures.map figure) =
      some (m * 10 ^ figures.length + Nat.ofDigits 10 (figures.map Fin.val).reverse) := by
  induction figures generalizing m with
  | nil => simp [Decimal.extend]
  | cons d rest ih =>
    have hnumber :
        (10 * m + d.val) * 10 ^ rest.length + Nat.ofDigits 10 (rest.map Fin.val).reverse =
          m * 10 ^ (rest.length + 1) +
            (Nat.ofDigits 10 (rest.map Fin.val).reverse + 10 ^ rest.length * d.val) := by ring
    rw [List.map_cons, Decimal.extend, figure, Decimal.digitValue?_digit d.isLt]
    show Decimal.extend (10 * m + d.val) _ = _
    rw [ih, hnumber, List.map_cons, Nat.ofDigits_reverse_cons, List.length_map, List.length_cons]

theorem value?_figures {figures : List (Fin 10)} (h : figures ≠ []) :
    Decimal.value? (figures.map figure) =
      some (Nat.ofDigits 10 (figures.map Fin.val).reverse) := by
  have hextend := extend_figures 0 figures
  rw [Nat.zero_mul, Nat.zero_add] at hextend
  cases figures with
  | nil => exact absurd rfl h
  | cons d rest => exact hextend

theorem exists_figures (m : Nat) :
    ∃ figures : List (Fin 10), figures.map figure = Decimal.digits m := by
  induction m using Nat.strongRecOn with
  | ind m ih =>
    rw [Decimal.digits]
    split
    · rename_i h
      exact ⟨[⟨m, h⟩], rfl⟩
    · rename_i h
      obtain ⟨figures, hfigures⟩ := ih (m / 10) (by omega)
      refine ⟨figures ++ [⟨m % 10, by omega⟩], ?_⟩
      rw [List.map_append, hfigures]
      rfl

/-- The decimal digits of a number, with zeros in front, are a numeral for it. -/
theorem exists_numeral (plus : Bool) (zeros m : Nat) :
    ∃ n : Numeral, n.value = m ∧
      n.chars = (if plus then ['+'] else []) ++ (List.replicate zeros '0' ++ Decimal.digits m) := by
  obtain ⟨figures, hfigures⟩ := exists_figures m
  have hchars : (List.replicate zeros 0 ++ figures).map figure =
      List.replicate zeros '0' ++ Decimal.digits m := by
    rw [List.map_append, List.map_replicate, hfigures]
    rfl
  have hne : List.replicate zeros 0 ++ figures ≠ [] := by
    intro h
    rw [h] at hchars
    simp [Decimal.digits_ne_nil] at hchars
  have hvalue := value?_figures hne
  rw [hchars, Decimal.value?_replicate_append_digits] at hvalue
  exact ⟨⟨plus, _, hne⟩, (Option.some.inj hvalue).symm, congrArg _ hchars⟩

theorem Numeral.isPlain_chars (n : Numeral) : IsPlain n.chars := by
  obtain ⟨plus, figures, hne⟩ := n
  cases plus with
  | true => exact fun h => absurd (Option.some.inj h) (by decide)
  | false =>
    cases figures with
    | nil => exact absurd rfl hne
    | cons d rest => exact fun h => absurd (Option.some.inj h) (figure_ne_sign d).2

/-- A numeral of any length is read just if its number fits. -/
theorem unsigned?_chars (bits : Nat) (n : Numeral) :
    unsigned? bits n.chars =
      if n.value < 2 ^ bits then some (BitVec.ofNat bits n.value) else none := by
  obtain ⟨plus, figures, hne⟩ := n
  have hfigures : withoutPlus (Numeral.chars ⟨plus, figures, hne⟩) = figures.map figure := by
    cases plus with
    | true => rfl
    | false =>
      cases figures with
      | nil => rfl
      | cons d rest =>
        show withoutPlus (figure d :: rest.map figure) = _
        unfold withoutPlus
        split
        · rename_i h
          exact absurd (List.cons.inj h).1 (figure_ne_sign d).1
        · rfl
  have hvalue : Decimal.value? (figures.map figure) = some (Numeral.value ⟨plus, figures, hne⟩) :=
    value?_figures hne
  have hkept : (BitVec.ofNat bits (Numeral.value ⟨plus, figures, hne⟩)).toNat =
      Numeral.value ⟨plus, figures, hne⟩ ↔ Numeral.value ⟨plus, figures, hne⟩ < 2 ^ bits := by
    rw [BitVec.toNat_ofNat, Nat.mod_eq_iff_lt (Nat.two_pow_pos bits).ne']
  rw [unsigned?, hfigures, hvalue]
  exact if_congr hkept rfl rfl

/-! ## Arguments -/

/-- An option as it is typed. -/
structure Choice where
  setting : Setting
  numeral : Numeral
  /-- Whether the number follows an equals sign. -/
  attached : Bool

namespace Choice

/-- The arguments that spell an option. -/
def arguments (c : Choice) : List String :=
  if c.attached then [c.setting.flagWith c.numeral.chars]
  else [c.setting.flag, String.ofList c.numeral.chars]

/-- Whether the number fits the option. -/
def Fits (c : Choice) : Prop := c.numeral.value < 2 ^ c.setting.bits

instance (c : Choice) : Decidable c.Fits := inferInstanceAs (Decidable (_ < _))

end Choice

/-- The number that options give to a setting. -/
def given (choices : List Choice) (s : Setting) : Option Nat :=
  (choices.find? (·.setting == s)).map (·.numeral.value)

theorem optionOf?_of_isPlain {argument : String} (h : IsPlain argument.toList) :
    optionOf? argument = none := by
  unfold optionOf?
  split
  · rename_i hargument
    rw [hargument] at h
    exact absurd rfl h
  · rfl

theorem optionOf?_flag (s : Setting) : optionOf? s.flag = some s :=
  Token.optionOf?_of_setting (Token.ofArgument_flag s)

theorem optionOf?_flagWith (s : Setting) (text : List Char) :
    optionOf? (s.flagWith text) = some s :=
  Token.optionOf?_of_setting (Token.ofArgument_flagWith s text)

/-- The arguments of an option name no other option. -/
theorem Choice.optionOf?_of_mem {c : Choice} {argument : String} (h : argument ∈ c.arguments)
    {s : Setting} (hs : optionOf? argument = some s) : s = c.setting := by
  unfold arguments at h
  split at h
  · obtain rfl := List.mem_singleton.1 h
    exact (Option.some.inj ((optionOf?_flagWith _ _).symm.trans hs)).symm
  · rcases List.mem_cons.1 h with rfl | h
    · exact (Option.some.inj ((optionOf?_flag _).symm.trans hs)).symm
    · obtain rfl := List.mem_singleton.1 h
      have hplain : IsPlain (String.ofList c.numeral.chars).toList := by
        rw [String.toList_ofList]
        exact c.numeral.isPlain_chars
      rw [optionOf?_of_isPlain hplain] at hs
      cases hs

theorem optionNext_arguments (c : Choice) (rest : List String) :
    OptionNext (c.arguments ++ rest) := by
  intro argument h
  unfold Choice.arguments at h
  split at h
  · cases h
    rw [optionOf?_flagWith]
    rfl
  · cases h
    rw [optionOf?_flag]
    rfl

theorem optionNext_choices (choices : List Choice) :
    OptionNext (choices.flatMap Choice.arguments) := by
  cases choices with
  | nil => exact nofun
  | cons c rest =>
    rw [List.flatMap_cons]
    exact optionNext_arguments c _

/-- The arguments of other options do not name this one. -/
theorem optionOf?_ne_of_mem {choices : List Choice} {s : Setting}
    (h : s ∉ choices.map Choice.setting) :
    ∀ argument ∈ choices.flatMap Choice.arguments, optionOf? argument ≠ some s := by
  intro argument hmem hs
  obtain ⟨c, hc, hargument⟩ := List.mem_flatMap.1 hmem
  exact h (Choice.optionOf?_of_mem hargument hs ▸ List.mem_map_of_mem hc)

/-! ## Reading -/

/-- What is read, with the number of an option. -/
def Choice.settle (c : Choice) (read : Except UsageError Settings) : Except UsageError Settings :=
  withText c.setting c.numeral.chars read

section Rules

variable {parse : List String → Except UsageError Settings} {path : String}

/-- An option at the front is settled. -/
theorem Rules.parse_choice (h : Rules parse) (c : Choice) {rest : List String}
    (hothers : ∀ a ∈ rest, optionOf? a ≠ some c.setting)
    (hnext : OptionNext rest ∨ ∃ path after, rest = path :: after ∧ IsPlain path.toList) :
    parse (c.arguments ++ rest) = c.settle (parse rest) := by
  have hplain := c.numeral.isPlain_chars
  have hattached : parse (c.setting.flagWith c.numeral.chars :: rest) = c.settle (parse rest) :=
    h.attached c.setting _ rest hplain hothers
  unfold Choice.arguments
  split
  · exact hattached
  · exact (h.apart c.setting _ rest hplain hnext).trans hattached

/-- A path at the front lets an option pass. -/
theorem Rules.parse_path_choice (h : Rules parse) (hne : path ≠ "") (hplain : IsPlain path.toList)
    (c : Choice) {rest : List String} (hnext : OptionNext rest) :
    parse (path :: (c.arguments ++ rest)) = parse (c.arguments ++ path :: rest) := by
  obtain ⟨hattached, hapart⟩ :=
    h.path_moves path c.setting c.numeral.chars rest hne hplain c.numeral.isPlain_chars hnext
  unfold Choice.arguments
  split
  · exact hattached
  · exact hapart

/-- The options after the path. -/
theorem Rules.parse_path (h : Rules parse) (hne : path ≠ "") (hplain : IsPlain path.toList)
    {after : List Choice} (hdistinct : (after.map Choice.setting).Nodup) :
    parse (path :: after.flatMap Choice.arguments) = after.foldr Choice.settle (.ok { path }) := by
  induction after with
  | nil => exact h.path_alone path hne hplain
  | cons c rest ih =>
    obtain ⟨hnew, hdistinct⟩ := List.nodup_cons.1 hdistinct
    have hothers : ∀ a ∈ path :: rest.flatMap Choice.arguments, optionOf? a ≠ some c.setting := by
      refine List.forall_mem_cons.2 ⟨?_, optionOf?_ne_of_mem hnew⟩
      rw [optionOf?_of_isPlain hplain]
      exact nofun
    rw [List.flatMap_cons, h.parse_path_choice hne hplain c (optionNext_choices rest),
      h.parse_choice c hothers (Or.inr ⟨path, _, rfl, hplain⟩), ih hdistinct]
    rfl

/-- A whole line is read as if all numbers were settled on the path alone. -/
theorem Rules.parse_spelled (h : Rules parse) (hne : path ≠ "") (hplain : IsPlain path.toList)
    {before after : List Choice} (hdistinct : ((before ++ after).map Choice.setting).Nodup) :
    parse (before.flatMap Choice.arguments ++ path :: after.flatMap Choice.arguments) =
      (before ++ after).foldr Choice.settle (.ok { path }) := by
  induction before with
  | nil => exact h.parse_path hne hplain hdistinct
  | cons c rest ih =>
    obtain ⟨hnew, hdistinct⟩ : c.setting ∉ (rest ++ after).map Choice.setting ∧
        ((rest ++ after).map Choice.setting).Nodup := List.nodup_cons.1 hdistinct
    rw [List.map_append, List.mem_append, not_or] at hnew
    have hothers : ∀ a ∈ rest.flatMap Choice.arguments ++ path :: after.flatMap Choice.arguments,
        optionOf? a ≠ some c.setting := by
      refine List.forall_mem_append.2 ⟨optionOf?_ne_of_mem hnew.1, ?_⟩
      refine List.forall_mem_cons.2 ⟨?_, optionOf?_ne_of_mem hnew.2⟩
      rw [optionOf?_of_isPlain hplain]
      exact nofun
    have hnext :
        OptionNext (rest.flatMap Choice.arguments ++ path :: after.flatMap Choice.arguments) ∨
          ∃ path' after', rest.flatMap Choice.arguments ++ path :: after.flatMap Choice.arguments =
            path' :: after' ∧ IsPlain path'.toList := by
      cases rest with
      | nil => exact Or.inr ⟨path, _, rfl, hplain⟩
      | cons c' rest =>
        rw [List.flatMap_cons, List.append_assoc]
        exact Or.inl (optionNext_arguments c' _)
    rw [List.flatMap_cons, List.append_assoc, h.parse_choice c hothers hnext, ih hdistinct]
    rfl

end Rules

/-! ## The numbers -/

/-- The settings for a path and the options that are given. -/
structure Holds (path : String) (choices : List Choice) (settings : Settings) : Prop where
  path : settings.path = path
  cyclesPerFrame : settings.cyclesPerFrame.toNat = (given choices .cyclesPerFrame).getD 10
  frameMs : settings.frameMs.toNat = (given choices .frameMs).getD 15
  maxCycles : settings.maxCycles.map BitVec.toNat = given choices .maxCycles

theorem holds_path (path : String) : Holds path [] { path } := ⟨rfl, rfl, rfl, rfl⟩

theorem Holds.withNumber {path : String} {choices : List Choice} {settings : Settings}
    (h : Holds path choices settings) {c : Choice} (hfits : c.Fits) :
    Holds path (c :: choices)
      (settings.withNumber c.setting (BitVec.ofNat c.setting.bits c.numeral.value)) := by
  obtain ⟨setting, numeral, attached⟩ := c
  have hnumber : (BitVec.ofNat setting.bits numeral.value).toNat = numeral.value :=
    (BitVec.toNat_ofNat _ _).trans (Nat.mod_eq_of_lt hfits)
  cases setting with
  | cyclesPerFrame => exact ⟨h.path, hnumber, h.frameMs, h.maxCycles⟩
  | frameMs => exact ⟨h.path, h.cyclesPerFrame, hnumber, h.maxCycles⟩
  | maxCycles => exact ⟨h.path, h.cyclesPerFrame, h.frameMs, congrArg some hnumber⟩

theorem Choice.settle_of_fits {c : Choice} (h : c.Fits) (read : Except UsageError Settings) :
    c.settle read =
      read.map (Settings.withNumber c.setting (BitVec.ofNat c.setting.bits c.numeral.value)) := by
  have hnumber := (unsigned?_chars c.setting.bits c.numeral).trans (if_pos h)
  rw [settle, withText, hnumber]

theorem Choice.settle_of_not_fits {c : Choice} (h : ¬ c.Fits) (read : Except UsageError Settings) :
    c.settle read = .error .badNumber := by
  have hnumber := (unsigned?_chars c.setting.bits c.numeral).trans (if_neg h)
  rw [settle, withText, hnumber]

theorem exists_holds {choices : List Choice} (path : String) (h : ∀ c ∈ choices, c.Fits) :
    ∃ settings, choices.foldr Choice.settle (.ok { path }) = .ok settings ∧
      Holds path choices settings := by
  induction choices with
  | nil => exact ⟨_, rfl, holds_path path⟩
  | cons c rest ih =>
    obtain ⟨hfits, hrest⟩ := List.forall_mem_cons.1 h
    obtain ⟨settings, hread, hholds⟩ := ih hrest
    refine ⟨_, ?_, hholds.withNumber hfits⟩
    rw [List.foldr_cons, hread, Choice.settle_of_fits hfits]
    rfl

/-- The first number that does not fit is what is wrong, and so is one after numbers that fit. -/
theorem foldr_settle_of_not_fits {choices : List Choice} (path : String)
    (h : ∃ c ∈ choices, ¬ c.Fits) :
    choices.foldr Choice.settle (.ok { path }) = .error .badNumber := by
  induction choices with
  | nil => exact absurd h (by simp)
  | cons c rest ih =>
    rw [List.foldr_cons]
    by_cases hfits : c.Fits
    · obtain ⟨c', hc', hnot⟩ := h
      have hrest : c' ∈ rest := by
        rcases List.mem_cons.1 hc' with rfl | hrest
        · exact absurd hfits hnot
        · exact hrest
      rw [ih ⟨c', hrest, hnot⟩, Choice.settle_of_fits hfits]
      rfl
    · exact Choice.settle_of_not_fits hfits _

/-- **Spellings.**  A path and up to three options in any order, each number after an equals sign or
as the next argument, are read as just that path and those numbers, and the scheduler is run with
them; what is not given is 10, 15 and no budget.  This is so just if every number fits its option,
whatever zeros and plus signs are written, and else the number is what is wrong.  All decimals with
zeros and a plus sign in front are numerals. -/
theorem every_spelling_parses {parse : List String → Except UsageError Settings}
    (hparse : Rules parse) (path : String) (before after : List Choice) (hne : path ≠ "")
    (hplain : IsPlain path.toList) (hdistinct : ((before ++ after).map Choice.setting).Nodup) :
    let choices := before ++ after
    let read := parse (before.flatMap Choice.arguments ++ path :: after.flatMap Choice.arguments)
    ((∀ c ∈ choices, c.numeral.value < 2 ^ c.setting.bits) →
      ∃ settings, read = .ok settings ∧ Holds path choices settings ∧
        settings.config = ⟨(given choices .cyclesPerFrame).getD 10,
          (given choices .frameMs).getD 15, given choices .maxCycles⟩) ∧
      ((∃ c ∈ choices, ¬ c.numeral.value < 2 ^ c.setting.bits) → read = .error .badNumber) ∧
      ∀ (plus : Bool) (zeros m : Nat), ∃ n : Numeral, n.value = m ∧
        n.chars = (if plus then ['+'] else []) ++
          (List.replicate zeros '0' ++ Decimal.digits m) := by
  intro choices read
  have hread : read = choices.foldr Choice.settle (.ok { path }) :=
    hparse.parse_spelled hne hplain hdistinct
  refine ⟨fun hfits => ?_, fun hlarge => hread.trans (foldr_settle_of_not_fits path hlarge),
    exists_numeral⟩
  obtain ⟨settings, hsettled, hholds⟩ := exists_holds path hfits
  refine ⟨settings, hread.trans hsettled, hholds, ?_⟩
  rw [Settings.config, hholds.cyclesPerFrame, hholds.frameMs, hholds.maxCycles]

/-- The largest numbers, one with a plus sign and zeros, and the path between the options. -/
theorem every_spelling_parses_largest :
    let largest : Numeral :=
      ⟨true, [0, 0, 1, 8, 4, 4, 6, 7, 4, 4, 0, 7, 3, 7, 0, 9, 5, 5, 1, 6, 1, 5], by decide⟩
    let before : List Choice := [⟨.maxCycles, largest, true⟩]
    let after : List Choice :=
      [⟨.cyclesPerFrame, ⟨false, [4, 2, 9, 4, 9, 6, 7, 2, 9, 5], by decide⟩, false⟩]
    Rules parse ∧
      before.flatMap Choice.arguments ++ "a=b" :: after.flatMap Choice.arguments =
        ["--max-cycles=+0018446744073709551615", "a=b", "--cycles-per-frame", "4294967295"] ∧
      ∃ settings, parse ["--max-cycles=+0018446744073709551615", "a=b", "--cycles-per-frame",
          "4294967295"] = .ok settings ∧ settings.path = "a=b" ∧
        settings.config = ⟨4294967295, 15, some 18446744073709551615⟩ := by
  intro largest before after
  have harguments : before.flatMap Choice.arguments ++ "a=b" :: after.flatMap Choice.arguments =
      ["--max-cycles=+0018446744073709551615", "a=b", "--cycles-per-frame", "4294967295"] := by
    decide +kernel
  obtain ⟨settings, hread, hholds, hconfig⟩ :=
    (every_spelling_parses rules_parse "a=b" before after (by decide)
      (show "a=b".toList.head? ≠ some '-' by decide) (by decide)).1 (by decide)
  rw [harguments] at hread
  exact ⟨rules_parse, harguments, settings, hread, hholds.path, hconfig⟩

end CommandLine

end ChipEight
