import DesignMatrix.Text.Alphabetic
import DesignMatrix.Text.Numeric
import DesignMatrix.Text.Blank
import DesignMatrix.Text.Lowercase
import DesignMatrix.Number.Scientific
import DesignMatrix.Formula.Term
import DesignMatrix.Formula.Lexer
import DesignMatrix.Formula.TreeReader
import DesignMatrix.Formula.Description
import DesignMatrix.Design.CleanName
import DesignMatrix.Json.Reader
import DesignMatrix.Json.Writer
import DesignMatrix.Polynomial.Basis
import DesignMatrix.Frame.Operation
import DesignMatrix.Frame.Evaluation
import DesignMatrix.Design.Builder
import DesignMatrix.Design.Dense
import DesignMatrix.Proofs.Evaluation
import DesignMatrix.Proofs.DesignContract
import DesignMatrix.Proofs.Expansion
import DesignMatrix.Proofs.TermPowers
import DesignMatrix.Proofs.TermMeaning
import DesignMatrix.Proofs.TokenReading
import DesignMatrix.Proofs.ArithGrammar
import DesignMatrix.Proofs.ArithReading
import DesignMatrix.Proofs.FormulaGrammar
import DesignMatrix.Proofs.FormulaReading
import DesignMatrix.Proofs.FormulaTerms
import DesignMatrix.Proofs.ArithText
import DesignMatrix.Proofs.ParsedTrees
import DesignMatrix.Proofs.BasisColumns
import DesignMatrix.Proofs.FactorNames
import DesignMatrix.Proofs.Deduplication
import DesignMatrix.Proofs.DescriptionText
import DesignMatrix.Proofs.CleanLabels
import DesignMatrix.Proofs.ExactDesigns
import DesignMatrix.Proofs.OrthogonalPolynomials
import DesignMatrix.Proofs.DistinctTerms
import DesignMatrix.Proofs.KeptFactors
import DesignMatrix.Proofs.CrossedTerms
import DesignMatrix.Proofs.BasisDegrees
import DesignMatrix.Proofs.MergedDegrees
import DesignMatrix.Proofs.DesignGaps
import DesignMatrix.Proofs.RestrictedDesigns
import DesignMatrix.Proofs.SavedConfigs
import DesignMatrix.Proofs.GroupedSums
import DesignMatrix.Proofs.InterceptItems
import DesignMatrix.Proofs.RepeatedCrosses
import DesignMatrix.Proofs.ValidBuilders
import DesignMatrix.Proofs.Lexemes
import DesignMatrix.Proofs.TokenLayout
import DesignMatrix.Proofs.DenseExports
import DesignMatrix.Proofs.SettledReadings
import DesignMatrix.Proofs.SettledFormulas
import DesignMatrix.Proofs.FinalFaults
import DesignMatrix.Proofs.CleanNames
import DesignMatrix.Proofs.DistinctValues
import DesignMatrix.Proofs.TermProducts
import DesignMatrix.Proofs.PolynomialOrders
import DesignMatrix.Proofs.CursorDescent
import DesignMatrix.Proofs.CursorReadings
import DesignMatrix.Proofs.DescentReadings
import DesignMatrix.Proofs.BoundedDescent
