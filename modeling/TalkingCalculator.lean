import TalkingCalculator.Main
import TalkingCalculator.Window.View
import TalkingCalculator.Proofs.PostfixOrder
import TalkingCalculator.Proofs.TreeRebuilding
import TalkingCalculator.Proofs.Numeral
import TalkingCalculator.Proofs.PercentExpansion
import TalkingCalculator.Proofs.Characters
import TalkingCalculator.Proofs.Lexing
import TalkingCalculator.Proofs.SeparatedTokens
import TalkingCalculator.Proofs.Writing
import TalkingCalculator.Proofs.WritingTokens
import TalkingCalculator.Proofs.PermittedTexts
import TalkingCalculator.Proofs.PreparedTexts
import TalkingCalculator.Proofs.TextTokens
import TalkingCalculator.Proofs.WrittenExpressions
import TalkingCalculator.Proofs.FunctionNames
import TalkingCalculator.Proofs.BitPatterns
import TalkingCalculator.Proofs.Magnitudes
import TalkingCalculator.Proofs.NearestCode
import TalkingCalculator.Proofs.ShortestDecimal
import TalkingCalculator.Proofs.NumberText
import TalkingCalculator.Proofs.PlainDecimals
import TalkingCalculator.Proofs.RoundingPasses
import TalkingCalculator.Proofs.RoundedProducts
import TalkingCalculator.Proofs.RoundingDrift
import TalkingCalculator.Proofs.SessionSteps
import TalkingCalculator.Proofs.Reseeding
import TalkingCalculator.Proofs.HeardNumerals
import TalkingCalculator.Proofs.PostfixOperands
import TalkingCalculator.Proofs.OperandReplacement
import TalkingCalculator.Proofs.BufferEnds
import TalkingCalculator.Proofs.RecalledOperands
import TalkingCalculator.Proofs.MemoryRegister
import TalkingCalculator.Proofs.RecalledValues
import TalkingCalculator.Proofs.DisplayedTexts
import TalkingCalculator.Proofs.StablePreparation
import TalkingCalculator.Proofs.FaithfulTraces
import TalkingCalculator.Proofs.ContinuedResults
import TalkingCalculator.Proofs.PercentOfResults
import TalkingCalculator.Proofs.FaultKinds
import TalkingCalculator.Proofs.PreparationLaws
import TalkingCalculator.Proofs.ShownTexts
import TalkingCalculator.Proofs.VoiceIndependence
import TalkingCalculator.Proofs.Gestures
import TalkingCalculator.Proofs.KeyedTexts
import TalkingCalculator.Proofs.KeyedBuffers
import TalkingCalculator.Proofs.Utterances
import TalkingCalculator.Proofs.CommandNames
import TalkingCalculator.Proofs.EchoedTexts
import TalkingCalculator.Proofs.NumberWords
import TalkingCalculator.Proofs.AudibleReadings
import TalkingCalculator.Proofs.HeardResults
import TalkingCalculator.Proofs.SpokenNumbers
import TalkingCalculator.Proofs.PrintedCalculations
import TalkingCalculator.Proofs.QuotedTexts
import TalkingCalculator.Proofs.SinglePrecision
import TalkingCalculator.Proofs.WrittenScalars
import TalkingCalculator.Proofs.WrittenDocuments
import TalkingCalculator.Proofs.SavedSettings
import TalkingCalculator.Proofs.AtomicErrors
import TalkingCalculator.Proofs.PostfixTrees
import TalkingCalculator.Proofs.DefinedSums
import TalkingCalculator.Proofs.ExpressionArguments
import TalkingCalculator.Proofs.ErasedKeys
import TalkingCalculator.Proofs.DegreeMode
import TalkingCalculator.Proofs.SettledRoundings
import TalkingCalculator.Proofs.SharedKeys
import TalkingCalculator.Proofs.UntouchedFiles
import TalkingCalculator.Proofs.BoundedRecursion
import TalkingCalculator.Proofs.StackDiscipline
import TalkingCalculator.Proofs.WordTables
