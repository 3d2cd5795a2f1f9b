import SlotCompiler.CommandLine.Arguments
import SlotCompiler.Proofs.Generation.Inversion

/-!
# Arguments as derivations

Arguments that are understood can be taken apart one after the other: `Reads` says from which
options they lead to which, without an order in which anything is tried (`Options.parse_run_iff`).

Nothing that arguments ask for is taken back (`Options.Grows`), and no other argument looks at a
printing option, so the others can be taken in front of one or behind it.  A printing option that is
not given can therefore be put anywhere in front of `--`, and makes no difference but its own
(`Printout.insert_reads`).
-/

set_option autoImplicit false

namespace SlotCompiler.CommandLine

namespace Options

/-! ## Derivations -/

/-- An argument that is taken on its own. -/
inductive Takes (options : Options) : String → Options → Prop where
  | inspect {argument name : String} {changed : Options}
      (value : inspectValue? argument = some name) (taken : options.setInspect name = .ok changed) :
      Takes options argument changed
  | flag {argument : String} {changed : Options} (taken : options.setFlag argument = .ok changed) :
      Takes options argument changed
  | file {argument : String} {changed : Options} (plain : isOption argument = false)
      (taken : options.addFile argument = .ok changed) : Takes options argument changed

/-- Arguments that lead from some options to others. -/
inductive Reads : Options → List String → Options → Prop where
  | none {options : Options} : Reads options [] options
  | files {options final : Options} {names : List String}
      (taken : options.addFiles names = .ok final) : Reads options ("--" :: names) final
  | inspect {options changed final : Options} {name : String} {arguments : List String}
      (plain : isOption name = false) (taken : options.setInspect name = .ok changed)
      (further : Reads changed arguments final) :
      Reads options ("--inspect" :: name :: arguments) final
  | next {options changed final : Options} {argument : String} {arguments : List String}
      (first : Takes options argument changed) (further : Reads changed arguments final) :
      Reads options (argument :: arguments) final

/-- Arguments that are understood lead to the options that are understood. -/
theorem reads_of_parse {options final : Options} {arguments : List String}
    (understood : options.parse arguments = .ok (.run final)) : Reads options arguments final := by
  fun_induction parse options arguments with
  | case1 options =>
      cases understood
      exact .none
  | case2 options names =>
      obtain ⟨changed, taken, same⟩ := bind_eq_ok_iff.mp understood
      cases same
      exact .files taken
  | case3 => cases understood
  | case4 => cases understood
  | case5 => cases understood
  | case6 => cases understood
  | case7 options name names _ plain ih =>
      obtain ⟨changed, taken, further⟩ := bind_eq_ok_iff.mp understood
      exact .inspect (Bool.eq_false_iff.mpr plain) taken (ih changed further)
  | case8 options argument arguments _ _ _ _ name value ih =>
      obtain ⟨changed, taken, further⟩ := bind_eq_ok_iff.mp understood
      exact .next (.inspect value taken) (ih changed further)
  | case9 => cases understood
  | case10 => cases understood
  | case11 options argument arguments _ _ _ _ _ head tail _ _ _ ih =>
      obtain ⟨changed, taken, further⟩ := bind_eq_ok_iff.mp understood
      exact .next (.flag taken) (ih changed further)
  | case12 options argument arguments _ _ _ _ _ _ _ bare ih =>
      obtain ⟨changed, taken, further⟩ := bind_eq_ok_iff.mp understood
      refine .next (.file ?_ taken) (ih changed further)
      unfold isOption
      split
      · rename_i head tail begins
        exact absurd begins (bare head tail)
      · rfl

/-- An option without a value is one of five, and sets what was not set. -/
theorem setFlag_cases {options changed : Options} {flag : String}
    (taken : options.setFlag flag = .ok changed) :
    flag = "--tokens" ∧ options.tokens = false ∧ changed = { options with tokens := true } ∨
      flag = "--no-color" ∧ options.noColour = false ∧
        changed = { options with noColour := true } ∨
      flag = "--ast" ∧ options.tree = false ∧ changed = { options with tree := true } ∨
      flag = "--disasm" ∧ options.listing = false ∧ changed = { options with listing := true } ∨
      flag = "--stop-on-first-error" ∧ options.stopOnFirstError = false ∧
        changed = { options with stopOnFirstError := true } := by
  unfold setFlag at taken
  split at taken
  case h_6 => cases taken
  all_goals
    dsimp only at taken
    split at taken
    · cases taken
    · cases taken
      simp_all

/-- What does not look like an option is a file. -/
theorem parse_cons_of_plain {argument : String} (plain : isOption argument = false)
    (options : Options) (arguments : List String) :
    options.parse (argument :: arguments) =
      options.addFile argument >>= fun changed => changed.parse arguments := by
  have bare : ∀ head tail, argument.toList ≠ '-' :: head :: tail := by
    intro head tail begins
    rw [isOption, begins] at plain
    cases plain
  have valueless : inspectValue? argument = none := by
    refine if_neg fun begins => ?_
    obtain ⟨name, same⟩ := List.isPrefixOf_iff_prefix.mp begins
    exact bare _ _ same.symm
  rw [parse]
  · simp only [valueless]
    split
    · rename_i tail begins
      exact absurd begins (bare _ _)
    · rename_i tail begins
      exact absurd begins (bare _ _)
    · rename_i head tail _ _ begins
      exact absurd begins (bare _ _)
    · rfl
  · rintro rfl
    cases plain
  · rintro rfl
    cases plain
  · rintro rfl
    cases plain
  · rintro rfl
    cases plain

/-- An option with its value behind an equals sign. -/
theorem parse_cons_of_value {argument name : String} (value : inspectValue? argument = some name)
    (options : Options) (arguments : List String) :
    options.parse (argument :: arguments) =
      options.setInspect name >>= fun changed => changed.parse arguments := by
  rw [parse]
  · simp only [value]
  · rintro rfl
    cases value
  · rintro rfl
    cases value
  · rintro rfl
    cases value
  · rintro rfl
    cases value

/-- An argument that is taken on its own is taken whatever stands behind it. -/
theorem Takes.parse_eq {options changed : Options} {argument : String}
    (takes : options.Takes argument changed) (arguments : List String) :
    options.parse (argument :: arguments) = changed.parse arguments := by
  cases takes with
  | inspect value taken =>
      rw [parse_cons_of_value value, taken]
      rfl
  | flag taken =>
      have step : options.parse (argument :: arguments) =
          options.setFlag argument >>= fun changed => changed.parse arguments := by
        rcases setFlag_cases taken with ⟨rfl, -⟩ | ⟨rfl, -⟩ | ⟨rfl, -⟩ | ⟨rfl, -⟩ | ⟨rfl, -⟩ <;> rfl
      rw [step, taken]
      rfl
  | file plain taken =>
      rw [parse_cons_of_plain plain, taken]
      rfl

/-- **Arguments are understood as some options exactly if they lead there.** -/
theorem parse_run_iff {options final : Options} {arguments : List String} :
    options.parse arguments = .ok (.run final) ↔ Reads options arguments final := by
  refine ⟨reads_of_parse, fun reads => ?_⟩
  induction reads with
  | none => rfl
  | files taken =>
      rw [parse, taken]
      rfl
  | inspect plain taken _ ih =>
      rw [parse, plain, taken]
      exact ih
  | next first _ ih => rw [first.parse_eq, ih]

end Options

/-! ## Printing options -/

/-- What a compile run can print besides. -/
inductive Printout where
  | tree | listing

namespace Printout

/-- The option that asks for a printout. -/
def option : Printout → String
  | .tree => "--ast"
  | .listing => "--disasm"

/-- Whether options ask for a printout. -/
def wanted (options : Options) : Printout → Bool
  | .tree => options.tree
  | .listing => options.listing

/-- Options that ask for a printout as well. -/
def want (options : Options) : Printout → Options
  | .tree => { options with tree := true }
  | .listing => { options with listing := true }

end Printout

namespace Options

variable {options changed final : Options}

/-! ### What is asked for is not taken back -/

/-- What some options ask for, others ask for as well. -/
structure Grows (options changed : Options) : Prop where
  inspect : options.inspect ≠ none → changed.inspect ≠ none
  wanted : ∀ printout : Printout, printout.wanted options = true → printout.wanted changed = true

namespace Grows

theorem refl (options : Options) : Grows options options := ⟨id, fun _ => id⟩

theorem trans (first : Grows options changed) (second : Grows changed final) :
    Grows options final :=
  ⟨second.inspect ∘ first.inspect, fun printout => second.wanted printout ∘ first.wanted printout⟩

/-- What is not wanted at the end was not wanted before. -/
theorem unwanted (grows : Grows options changed) {printout : Printout}
    (never : printout.wanted changed = false) : printout.wanted options = false := by
  rw [← Bool.not_eq_true] at never ⊢
  exact never ∘ grows.wanted printout

end Grows

theorem grows_addFile {name : String} (taken : options.addFile name = .ok changed) :
    Grows options changed := by
  unfold addFile at taken
  split at taken
  · split at taken <;> cases taken
    exact ⟨id, fun | .tree => id | .listing => id⟩
  · split at taken
    · split at taken <;> cases taken
      exact ⟨id, fun | .tree => id | .listing => id⟩
    · cases taken

theorem eq_of_setInspect {name : String} (taken : options.setInspect name = .ok changed) :
    changed = { options with inspect := some name } := by
  unfold setInspect at taken
  split at taken
  · cases taken
  · split at taken <;> cases taken
    rfl

theorem grows_setInspect {name : String} (taken : options.setInspect name = .ok changed) :
    Grows options changed := by
  rw [eq_of_setInspect taken]
  exact ⟨fun _ => Option.some_ne_none name, fun | .tree => id | .listing => id⟩

theorem grows_setFlag {flag : String} (taken : options.setFlag flag = .ok changed) :
    Grows options changed := by
  rcases setFlag_cases taken with ⟨-, -, rfl⟩ | ⟨-, -, rfl⟩ | ⟨-, -, rfl⟩ | ⟨-, -, rfl⟩ |
    ⟨-, -, rfl⟩
  · exact ⟨id, fun | .tree => id | .listing => id⟩
  · exact ⟨id, fun | .tree => id | .listing => id⟩
  · exact ⟨id, fun | .tree => fun _ => rfl | .listing => id⟩
  · exact ⟨id, fun | .tree => id | .listing => fun _ => rfl⟩
  · exact ⟨id, fun | .tree => id | .listing => id⟩

theorem Takes.grows {argument : String} (takes : options.Takes argument changed) :
    Grows options changed := by
  cases takes with
  | inspect value taken => exact grows_setInspect taken
  | flag taken => exact grows_setFlag taken
  | file plain taken => exact grows_addFile taken

theorem grows_addFiles {names : List String} (taken : options.addFiles names = .ok final) :
    Grows options final := by
  induction names generalizing options with
  | nil =>
      cases taken
      exact .refl _
  | cons name names ih =>
      obtain ⟨changed, first, further⟩ := bind_eq_ok_iff.mp taken
      exact (grows_addFile first).trans (ih further)

/-- Arguments only ever ask for more. -/
theorem Reads.grows {arguments : List String} (reads : options.Reads arguments final) :
    Grows options final := by
  induction reads with
  | none => exact .refl _
  | files taken => exact grows_addFiles taken
  | inspect plain taken _ ih => exact (grows_setInspect taken).trans ih
  | next first _ ih => exact first.grows.trans ih

end Options

namespace Printout

variable (printout : Printout) {options changed final : Options}

/-! ### Behind a printing option as in front of it -/

theorem takes_option (new : printout.wanted options = false) :
    options.Takes printout.option (printout.want options) := by
  cases printout with
  | tree => exact .flag (if_neg (Bool.eq_false_iff.mp new))
  | listing => exact .flag (if_neg (Bool.eq_false_iff.mp new))

theorem want_addFile {name : String} (taken : options.addFile name = .ok changed) :
    (printout.want options).addFile name = .ok (printout.want changed) := by
  unfold Options.addFile at taken
  cases printout <;> unfold Options.addFile want <;> grind

theorem want_setInspect {name : String} (taken : options.setInspect name = .ok changed) :
    (printout.want options).setInspect name = .ok (printout.want changed) := by
  unfold Options.setInspect at taken
  cases printout <;> unfold Options.setInspect want <;> grind

/-- An option is taken behind another one, but not behind itself. -/
theorem want_setFlag {flag : String} (taken : options.setFlag flag = .ok changed)
    (never : printout.wanted changed = false) :
    (printout.want options).setFlag flag = .ok (printout.want changed) := by
  rcases Options.setFlag_cases taken with ⟨rfl, new, rfl⟩ | ⟨rfl, new, rfl⟩ | ⟨rfl, new, rfl⟩ |
    ⟨rfl, new, rfl⟩ | ⟨rfl, new, rfl⟩ <;>
    cases printout <;> simp_all [Options.setFlag, want, wanted]

theorem want_takes {argument : String} (takes : options.Takes argument changed)
    (never : printout.wanted changed = false) :
    (printout.want options).Takes argument (printout.want changed) := by
  cases takes with
  | inspect value taken => exact .inspect value (printout.want_setInspect taken)
  | flag taken => exact .flag (printout.want_setFlag taken never)
  | file plain taken => exact .file plain (printout.want_addFile taken)

theorem want_addFiles {names : List String} (taken : options.addFiles names = .ok final) :
    (printout.want options).addFiles names = .ok (printout.want final) := by
  induction names generalizing options with
  | nil =>
      cases taken
      rfl
  | cons name names ih =>
      obtain ⟨changed, first, further⟩ := bind_eq_ok_iff.mp taken
      exact bind_eq_ok_iff.mpr ⟨_, printout.want_addFile first, ih further⟩

variable {arguments : List String}

/-- Arguments without a printing option lead on behind it as in front of it. -/
theorem want_reads (reads : options.Reads arguments final)
    (never : printout.wanted final = false) :
    (printout.want options).Reads arguments (printout.want final) := by
  induction reads with
  | none => exact .none
  | files taken => exact .files (printout.want_addFiles taken)
  | inspect plain taken _ ih => exact .inspect plain (printout.want_setInspect taken) (ih never)
  | next first further ih =>
      have before := further.grows.unwanted never
      exact .next (printout.want_takes first before) (ih never)

/-- **A printing option can be put anywhere** in front of the end of the options. -/
theorem insert_reads {before after : List String}
    (reads : options.Reads (before ++ after) final) (compiles : final.inspect = none)
    (never : printout.wanted final = false) (front : "--" ∉ before) :
    options.Reads (before ++ printout.option :: after) (printout.want final) := by
  induction before generalizing options with
  | nil =>
      have new := reads.grows.unwanted never
      exact .next (printout.takes_option new) (printout.want_reads reads never)
  | cons argument before ih =>
      generalize same : argument :: before ++ after = whole at reads
      cases reads with
      | none => cases same
      | files taken =>
          cases same
          exact absurd List.mem_cons_self front
      | inspect plain taken further =>
          -- a unit file to list is not forgotten
          have grows := further.grows
          rw [Options.eq_of_setInspect taken] at grows
          exact absurd compiles (grows.inspect (Option.some_ne_none _))
      | next first further =>
          cases same
          exact .next first (ih further fun member => front (List.mem_cons_of_mem _ member))

end Printout

end SlotCompiler.CommandLine
