import DesignMatrix.Config.Store
import DesignMatrix.Design.Basic

/-!
# Builders

A grammar and a valid configuration, kept for building any number of designs.
-/

namespace DesignMatrix

/-- What designs are built with. -/
structure Builder where
  parser : FormulaParser
  config : Config

namespace Builder

/-- The builder with a grammar and the standard configuration. -/
def ofParser (parser : FormulaParser) : Builder := ⟨parser, .standard⟩

/-- The builder with the standard grammar and configuration. -/
def standard : Builder := ofParser standardParser

/-- The builder with another configuration, which must be valid. -/
def withConfig (builder : Builder) (config : Config) : Except ConfigError Builder := do
  config.validate
  .ok { builder with config }

/-- The builder with the standard grammar and the configuration of a file. -/
def ofFile (store : Store) (path : StorePath) : Except ConfigError Builder := do
  standard.withConfig (← store.load path)

/-- The response, the predictors and the wish for an intercept that a formula stands for. -/
def parse (builder : Builder) (formula : String) :
    Except FormulaError (Expr × List Predictor × Bool) :=
  Design.parse builder.parser formula

/-- Builds the design of a formula on a frame. -/
def build (builder : Builder) (frame : Frame) (formula : String) : Except DesignError Design :=
  Design.build builder.parser builder.config frame formula

end Builder

end DesignMatrix
