import TalkingCalculator.CommandLine.Run
import TalkingCalculator.Proofs.PrintedCalculations

namespace TalkingCalculator

/-- Whether a text begins with a dash and is more than that. -/
def Argument.LooksLikeOption (s : String) : Prop :=
  s.toList.head? = some '-' ∧ s.toList ≠ ['-']

instance (s : String) : Decidable (Argument.LooksLikeOption s) :=
  inferInstanceAs (Decidable (_ ∧ _))

theorem Argument.ofText_eq_plain_iff {s : String} : ofText s = .plain ↔ ¬ LooksLikeOption s := by
  rw [ofText, LooksLikeOption]
  generalize s.toList = cs
  fun_cases ofChars cs with
  | case1 | case2 | case3 | case4 => simp
  | case5 cs _ _ hdash =>
      refine iff_of_true rfl ?_
      rintro ⟨hhead, hne⟩
      obtain ⟨tail, rfl⟩ := List.head?_eq_some_iff.1 hhead
      have htail : tail ≠ [] := fun hnil => hne (by rw [hnil])
      obtain ⟨c, rest, rfl⟩ := List.exists_cons_of_ne_nil htail
      exact hdash c rest rfl

namespace Options

/-- The options that ask for the calculation of an expression. -/
def calculating (expression : String) : Options :=
  { empty with expression := some expression }

theorem setValue?_empty (expression : String) :
    empty.setValue? "calcul" expression = some (calculating expression) := by
  simp [setValue?, empty, calculating]

theorem parse_argument (expression : String) :
    empty.parse ["--calcul", expression] =
      if Argument.LooksLikeOption expression then .refused else .run (calculating expression) := by
  have hform : Argument.ofText "--calcul" = .long "calcul" none := by decide
  have hvalue : valueNames.contains "calcul" = true := by decide
  rw [parse, hform]
  simp only [hvalue, if_true, Argument.ofText_eq_plain_iff, setValue?_empty, parse, ite_not]

theorem parse_attached (expression : String) :
    empty.parse ["--calcul=" ++ expression] = .run (calculating expression) := by
  have hform : Argument.ofText ("--calcul=" ++ expression) = .long "calcul" (some expression) := by
    rw [Argument.ofText, String.toList_append]
    change Argument.long "calcul" (some (String.ofList expression.toList)) = _
    rw [String.ofList_toList]
  rw [parse, hform]
  simp only [setValue?_empty, parse]

end Options

namespace CommandLine

/-- The settings of a run without options for them: those of the file, or the default ones if it
cannot be read. -/
def storedSettings (env : Environment) : Settings :=
  (Settings.load (env.settingsHome ++ [programName, "config.toml"]) env.files
    env.refusals).2.toOption.getD Settings.default

theorem code_start_calculating (env : Environment) (expression : String) :
    (start env (.calculating expression)).code =
      if (evaluate (storedSettings env).degrees expression).toOption.isSome then 0 else 1 :=
  Calculation.code_run env.programs env.waitable
    (override (.calculating expression) (storedSettings env)) expression

/-- The report of a run that does not understand its arguments. -/
def refusal (env : Environment) : Report :=
  ⟨2, "", usageText, env.files, [], []⟩

theorem run_argument (env : Environment) (expression : String) :
    run env ["--calcul", expression] =
      if Argument.LooksLikeOption expression then
        refusal env else start env (.calculating expression) := by
  rw [run, Options.parse_argument]
  by_cases hoption : Argument.LooksLikeOption expression
  · rw [if_pos hoption, if_pos hoption]
    rfl
  · rw [if_neg hoption, if_neg hoption]

theorem run_attached (env : Environment) (expression : String) :
    run env ["--calcul=" ++ expression] = start env (.calculating expression) := by
  rw [run, Options.parse_attached]

end CommandLine

open CommandLine in
/-- An expression behind an equals sign is calculated: the exit code is 0 if it has a value, and
otherwise 1. As an argument of its own it is calculated in the same way unless it looks like an
option, and is otherwise refused. -/
theorem argument_is_calculated_iff (env : Environment) (expression : String) :
    let report := run env ["--calcul", expression]
    let attached := run env ["--calcul=" ++ expression]
    let code := if (evaluate (storedSettings env).degrees expression).toOption.isSome then 0 else 1
    attached.code = code ∧
      report = (if Argument.LooksLikeOption expression then refusal env else attached) ∧
      (report.code = code ↔ ¬ Argument.LooksLikeOption expression) := by
  intro report attached code
  have hattached : attached = start env (.calculating expression) := run_attached env expression
  have hcode : attached.code = code := by
    rw [hattached]
    exact code_start_calculating env expression
  have hreport : report = if Argument.LooksLikeOption expression then
      refusal env else attached := by
    rw [hattached]
    exact run_argument env expression
  refine ⟨hcode, hreport, ?_⟩
  rw [hreport]
  split
  · next hoption =>
      have hne : (refusal env).code ≠ code := by
        change 2 ≠ if _ then 0 else 1
        split <;> decide
      exact iff_of_false hne (not_not_intro hoption)
  · next hoption => exact iff_of_true hcode hoption

/-- A negative number is refused, although it has a value and is calculated behind an equals
sign. -/
theorem negative_number_is_refused :
    (CommandLine.run ⟨[], ["home"], [], true, none, {}⟩ ["--calcul", "-1"]).code = 2 ∧
      (CommandLine.run ⟨[], ["home"], [], true, none, {}⟩ ["--calcul=-1"]).code = 0 ∧
      evaluate false "-1" = .ok (Number.ofMagnitude true 0x3FF0000000000000) := by
  decide +kernel

end TalkingCalculator
