import SetCalculator.Expr.Grammar
import SetCalculator.Expr.Meaning
import SetCalculator.Expr.Subterms
import SetCalculator.Expr.Value
import SetCalculator.Main
import SetCalculator.Source.FileTree
import SetCalculator.Source.Memory
import SetCalculator.Text.Numeral
import SetCalculator.Proofs.CanonicalText
import SetCalculator.Proofs.Evaluation.Requests
import SetCalculator.Proofs.ProgramMeaning
import SetCalculator.Proofs.Reading.Diagnosis
import SetCalculator.Proofs.Reading.FlatScan
import SetCalculator.Proofs.Reading.Grammar
import SetCalculator.Proofs.Reading.LargerRegistry
import SetCalculator.Proofs.Reading.Locality
import SetCalculator.Proofs.Reading.Spans
import SetCalculator.Proofs.Reading.ViablePrefix
import SetCalculator.Proofs.Respacing
import SetCalculator.Proofs.Text.Classification
import SetCalculator.Proofs.Text.Lines
import SetCalculator.Proofs.Text.NumeralGrammar
import SetCalculator.Proofs.Text.Numerals
import SetCalculator.Proofs.PrintedValues
import SetCalculator.Proofs.Evaluation.TwoLoaders
import SetCalculator.Proofs.Source.Bytes
import SetCalculator.Proofs.Source.Agreement
import SetCalculator.Proofs.Reports
import SetCalculator.Proofs.Source.NumeralLines
import SetCalculator.Proofs.Evaluation.Flattening
import SetCalculator.Proofs.RequestedSources
import SetCalculator.Proofs.Evaluation.Integerwise
import SetCalculator.Proofs.Evaluation.Polarity
import SetCalculator.Proofs.Text.Joining
import SetCalculator.Proofs.EmitModes
import SetCalculator.Proofs.Source.Concatenation
import SetCalculator.Proofs.Arguments
import SetCalculator.Proofs.BaseDirectory
import SetCalculator.Proofs.Spelling
import SetCalculator.Expr.Descent
import SetCalculator.Proofs.Reading.Descent
