import DesignMatrix.Design.Builder
import DesignMatrix.Proofs.Outcomes

/-!
# Builders with valid configurations

Whatever calls are made, in whichever order and with whatever success, the builder in use has a
valid configuration: each call that succeeds has checked the configuration that it brings, and a
call that fails changes nothing. So no builder ever complains about its own configuration.
-/

namespace DesignMatrix

open Outcomes

theorem Config.validate_standard : Config.standard.validate = .ok () := by decide

/-- A configuration that is read has been checked, or nothing was said and it is the standard one. -/
theorem Config.validate_of_read {format : Format} {text : String} {config : Config}
    (loaded : Config.read format text = .ok config) : config.validate = .ok () := by
  unfold Config.read at loaded
  split at loaded
  · cases loaded
    exact Config.validate_standard
  · obtain ⟨content, -, loaded⟩ := bind_eq_ok.mp loaded
    obtain ⟨_, valid, same⟩ := bind_eq_ok.mp loaded
    cases same
    exact valid

/-- Loading never brings a configuration that is not valid, whatever the path leads to. -/
theorem Store.validate_of_load {store : Store} {path : StorePath} {config : Config}
    (loaded : store.load path = .ok config) : config.validate = .ok () := by
  unfold Store.load at loaded
  split at loaded
  · cases loaded
    exact Config.validate_standard
  · exact Config.validate_of_read loaded
  · cases loaded
  · cases loaded

/-- A failure is put down to the configuration exactly if it is not valid: it is checked first, and
nothing after it reports errors of this kind. -/
theorem Design.build_eq_config_error {parser : FormulaParser} {config : Config} {frame : Frame}
    {formula : String} {error : ConfigError} :
    Design.build parser config frame formula = .error (.config error) ↔
      config.validate = .error error := by
  simp [Design.build, bind_eq_error, mapError_eq_error]

namespace Builder

/-- The configuration of the builder is valid. -/
def IsValid (builder : Builder) : Prop := builder.config.validate = .ok ()

theorem isValid_ofParser (parser : FormulaParser) : (ofParser parser).IsValid :=
  Config.validate_standard

/-- A builder only takes over a configuration that is valid. -/
theorem withConfig_eq_ok {builder next : Builder} {config : Config} :
    builder.withConfig config = .ok next ↔
      config.validate = .ok () ∧ { builder with config } = next := by
  constructor
  · intro given
    obtain ⟨_, valid, same⟩ := bind_eq_ok.mp given
    exact ⟨valid, Except.ok.inj same⟩
  · rintro ⟨valid, rfl⟩
    exact bind_eq_ok.mpr ⟨(), valid, rfl⟩

theorem isValid_of_withConfig {builder next : Builder} {config : Config}
    (given : builder.withConfig config = .ok next) : next.IsValid := by
  obtain ⟨valid, rfl⟩ := withConfig_eq_ok.mp given
  exact valid

theorem isValid_of_ofFile {store : Store} {path : StorePath} {builder : Builder}
    (made : ofFile store path = .ok builder) : builder.IsValid := by
  obtain ⟨config, -, given⟩ := bind_eq_ok.mp made
  exact isValid_of_withConfig given

theorem IsValid.build_ne_config_error {builder : Builder} (valid : builder.IsValid)
    (parser : FormulaParser) (frame : Frame) (formula : String) (error : ConfigError) :
    ({ builder with parser } : Builder).build frame formula ≠ .error (.config error) := by
  intro failed
  cases valid.symm.trans (Design.build_eq_config_error.mp failed)

/-- A call that makes a builder, or gives another configuration to the one in use. -/
inductive Call where
  | standard
  | ofParser (parser : FormulaParser)
  | withConfig (config : Config)
  | ofFile (store : Store) (path : StorePath)

namespace Call

/-- The answer to a call where a builder may be in use; none if there is nothing to configure. -/
def answer? (current : Option Builder) : Call → Option (Except ConfigError Builder)
  | .standard => some (.ok .standard)
  | .ofParser parser => some (.ok (.ofParser parser))
  | .withConfig config => current.map fun builder => builder.withConfig config
  | .ofFile store path => some (Builder.ofFile store path)

/-- The builder in use after a call: the new one, or that in use before if the call fails. -/
def next (current : Option Builder) (call : Call) : Option Builder :=
  match call.answer? current with
  | some (.ok builder) => some builder
  | _ => current

/-- A call that succeeds answers with a valid builder, whichever one it replaces. -/
theorem isValid_of_answer {call : Call} {current : Option Builder} {builder : Builder}
    (answered : call.answer? current = some (.ok builder)) : builder.IsValid := by
  cases call with
  | standard =>
    cases answered
    exact isValid_ofParser standardParser
  | ofParser parser =>
    cases answered
    exact isValid_ofParser parser
  | withConfig config =>
    obtain ⟨_, -, given⟩ := Option.map_eq_some_iff.mp answered
    exact isValid_of_withConfig given
  | ofFile store path => exact isValid_of_ofFile (Option.some.inj answered)

theorem isValid_next {current : Option Builder} (valid : ∀ builder ∈ current, builder.IsValid)
    (call : Call) : ∀ builder ∈ call.next current, builder.IsValid := by
  intro builder inUse
  unfold next at inUse
  split at inUse
  · rename_i answered
    cases inUse
    exact isValid_of_answer answered
  · exact valid builder inUse

end Call

/-- The builder in use after some calls, where one may have been in use before. -/
def afterCalls (current : Option Builder) (calls : List Call) : Option Builder :=
  calls.foldl Call.next current

theorem isValid_afterCalls {current : Option Builder}
    (valid : ∀ builder ∈ current, builder.IsValid) (calls : List Call) :
    ∀ builder ∈ afterCalls current calls, builder.IsValid := by
  induction calls generalizing current with
  | nil => exact valid
  | cons call calls ih => exact ih (Call.isValid_next valid call)

/-- No run of calls ends with a builder that is not valid, so no builder blames its configuration,
and no file is loaded as a configuration that is not valid. -/
theorem validate_afterCalls_and_load (calls : List Call) :
    (∀ builder ∈ afterCalls none calls, builder.config.validate = .ok () ∧
        ∀ (parser : FormulaParser) (frame : Frame) (formula : String) (error : ConfigError),
          ({ builder with parser } : Builder).build frame formula ≠ .error (.config error)) ∧
      ∀ (store : Store) (path : StorePath) (config : Config),
        store.load path = .ok config → config.validate = .ok () := by
  refine ⟨fun builder inUse => ?_, fun store path config => Store.validate_of_load⟩
  have valid := isValid_afterCalls (by simp) calls builder inUse
  exact ⟨valid, valid.build_ne_config_error⟩

/-- A store with a file that has a blank name and one that sets a single name. -/
def mixedStore : Store :=
  (Store.empty.put ["blank.toml", ""] (.file (some "response-name = \" \""))).put
    ["partial.toml", ""] (.file (some "intercept-name = \"(all)\""))

/-- The configuration of the file that sets a single name. -/
def partialConfig : Config := { Config.standard with interceptName := "(all)" }

/-- Calls of which only the third succeeds. -/
def mixedCalls : List Call :=
  [.ofFile mixedStore ⟨false, ["blank.toml"]⟩, .withConfig .standard,
    .ofFile mixedStore ⟨false, ["partial.toml"]⟩,
    .withConfig { Config.standard with fallbackPrefix := "\t" },
    .ofFile mixedStore ⟨false, ["blank.toml"]⟩]

theorem validate_afterCalls_mixedCalls :
    (∃ builder ∈ afterCalls none mixedCalls, builder.config = partialConfig ∧
        builder.config.validate = .ok () ∧
        ∀ (parser : FormulaParser) (frame : Frame) (formula : String) (error : ConfigError),
          ({ builder with parser } : Builder).build frame formula ≠ .error (.config error)) ∧
      mixedStore.load ⟨false, ["partial.toml"]⟩ = .ok partialConfig ∧
      partialConfig.validate = .ok () := by
  obtain ⟨valid, validLoaded⟩ := validate_afterCalls_and_load mixedCalls
  have inUse : (afterCalls none mixedCalls).map Builder.config = some partialConfig := by
    decide +kernel
  obtain ⟨builder, found, config⟩ := Option.map_eq_some_iff.mp inUse
  have loaded : mixedStore.load ⟨false, ["partial.toml"]⟩ = .ok partialConfig := by
    decide +kernel
  exact ⟨⟨builder, found, config, valid builder found⟩, loaded, validLoaded _ _ _ loaded⟩

end Builder

end DesignMatrix
