import NaturalDeduction.Bot.Answer
import NaturalDeduction.CommandLine.Session
import NaturalDeduction.Credentials.Gather
import NaturalDeduction.Formula.Parser
import NaturalDeduction.Formula.Printer
import NaturalDeduction.Main
import NaturalDeduction.ProofTree.Check
import NaturalDeduction.ProofTree.Drawing
import NaturalDeduction.Proofs.BudgetMonotonicity
import NaturalDeduction.Proofs.CheckSpecification
import NaturalDeduction.Proofs.Grammar
import NaturalDeduction.Proofs.LetterRenaming
import NaturalDeduction.Proofs.NormalProofs
import NaturalDeduction.Proofs.Polling
import NaturalDeduction.Proofs.Replies
import NaturalDeduction.Proofs.RoundTrip
import NaturalDeduction.Proofs.SearchCompleteness
import NaturalDeduction.Proofs.SearchSoundness
import NaturalDeduction.Proofs.SearchTermination
import NaturalDeduction.Proofs.Verdicts
import NaturalDeduction.Proofs.Weakening
import NaturalDeduction.Search
import NaturalDeduction.Valuation
import NaturalDeduction.Proofs.ErrorPositions
import NaturalDeduction.Proofs.FirstCounterexample
import NaturalDeduction.Proofs.Bindings
import NaturalDeduction.Proofs.CanonicalNumbering
import NaturalDeduction.Proofs.NumberIndependence
import NaturalDeduction.Proofs.Threads
import NaturalDeduction.Proofs.NodeLines
import NaturalDeduction.Proofs.BranchBars
import NaturalDeduction.Proofs.PlainDrawing
import NaturalDeduction.Proofs.Typesetting
import NaturalDeduction.Proofs.Heights
import NaturalDeduction.Proofs.Lexemes
import NaturalDeduction.Proofs.LosslessScanning
import NaturalDeduction.Proofs.AnswerPosts
import NaturalDeduction.Proofs.SavedStores
import NaturalDeduction.Proofs.Restarts
import NaturalDeduction.Proofs.Executions
import NaturalDeduction.Proofs.Mentions
import NaturalDeduction.Proofs.StateDiscipline
