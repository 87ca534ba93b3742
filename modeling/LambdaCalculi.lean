import LambdaCalculi.CommandLine.Command
import LambdaCalculi.CommandLine.Example
import LambdaCalculi.CommandLine.Options
import LambdaCalculi.Dependent.Accounting
import LambdaCalculi.Dependent.AlphaEquiv
import LambdaCalculi.Dependent.Checking
import LambdaCalculi.Dependent.Context
import LambdaCalculi.Dependent.Eval
import LambdaCalculi.Dependent.NatEquality
import LambdaCalculi.Dependent.Program
import LambdaCalculi.Dependent.ReadBack
import LambdaCalculi.Dependent.Register
import LambdaCalculi.Dependent.Scoping
import LambdaCalculi.Dependent.Term
import LambdaCalculi.Dependent.Trace
import LambdaCalculi.Dependent.Typing
import LambdaCalculi.Dependent.Value
import LambdaCalculi.Main
import LambdaCalculi.Name
import LambdaCalculi.Outcome
import LambdaCalculi.Proofs.Behaviour
import LambdaCalculi.Proofs.Dependent.Acceptance
import LambdaCalculi.Proofs.Dependent.Blocked
import LambdaCalculi.Proofs.Dependent.Bounds
import LambdaCalculi.Proofs.Dependent.CanonicalForms
import LambdaCalculi.Proofs.Dependent.Canonicity
import LambdaCalculi.Proofs.Dependent.CheckingCompleteness
import LambdaCalculi.Proofs.Dependent.CheckingSafety
import LambdaCalculi.Proofs.Dependent.Codes
import LambdaCalculi.Proofs.Dependent.Coincidence
import LambdaCalculi.Proofs.Dependent.Comparison
import LambdaCalculi.Proofs.Dependent.Contexts
import LambdaCalculi.Proofs.Dependent.Contraction
import LambdaCalculi.Proofs.Dependent.Correspondence
import LambdaCalculi.Proofs.Dependent.Counting
import LambdaCalculi.Proofs.Dependent.Deciding
import LambdaCalculi.Proofs.Dependent.Denotation
import LambdaCalculi.Proofs.Dependent.Domain
import LambdaCalculi.Proofs.Dependent.Elements
import LambdaCalculi.Proofs.Dependent.EqualityProofs
import LambdaCalculi.Proofs.Dependent.EtaLaws
import LambdaCalculi.Proofs.Dependent.EvaluationSafety
import LambdaCalculi.Proofs.Dependent.ExtendedContexts
import LambdaCalculi.Proofs.Dependent.Fingerprints
import LambdaCalculi.Proofs.Dependent.InlinedChecking
import LambdaCalculi.Proofs.Dependent.InlinedPrograms
import LambdaCalculi.Proofs.Dependent.Inlining
import LambdaCalculi.Proofs.Dependent.Invariants
import LambdaCalculi.Proofs.Dependent.Judgements
import LambdaCalculi.Proofs.Dependent.Linking
import LambdaCalculi.Proofs.Dependent.Meanings
import LambdaCalculi.Proofs.Dependent.Members
import LambdaCalculi.Proofs.Dependent.Nameless
import LambdaCalculi.Proofs.Dependent.NatConsequences
import LambdaCalculi.Proofs.Dependent.NeutralVariables
import LambdaCalculi.Proofs.Dependent.NormalFormGrammar
import LambdaCalculi.Proofs.Dependent.NormalForms
import LambdaCalculi.Proofs.Dependent.OpenNormalForms
import LambdaCalculi.Proofs.Dependent.PairedVariables
import LambdaCalculi.Proofs.Dependent.ReachableContexts
import LambdaCalculi.Proofs.Dependent.ReadBackSafety
import LambdaCalculi.Proofs.Dependent.Reading
import LambdaCalculi.Proofs.Dependent.RecountedChecking
import LambdaCalculi.Proofs.Dependent.Recounting
import LambdaCalculi.Proofs.Dependent.RenamedEvaluation
import LambdaCalculi.Proofs.Dependent.RenamedPrograms
import LambdaCalculi.Proofs.Dependent.Renaming
import LambdaCalculi.Proofs.Dependent.ScopedChecking
import LambdaCalculi.Proofs.Dependent.ScopedContexts
import LambdaCalculi.Proofs.Dependent.ScopedEvaluation
import LambdaCalculi.Proofs.Dependent.Sessions
import LambdaCalculi.Proofs.Dependent.Shadowing
import LambdaCalculi.Proofs.Dependent.SharedRegisters
import LambdaCalculi.Proofs.Dependent.StableNormalForms
import LambdaCalculi.Proofs.Dependent.SubstitutedEvaluation
import LambdaCalculi.Proofs.Dependent.UnchangedContexts
import LambdaCalculi.Proofs.Dependent.UniqueReadability
import LambdaCalculi.Proofs.Embedding.Checking
import LambdaCalculi.Proofs.Embedding.Programs
import LambdaCalculi.Proofs.Embedding.Types
import LambdaCalculi.Proofs.Embedding.Values
import LambdaCalculi.Proofs.Freshness
import LambdaCalculi.Proofs.Lockstep
import LambdaCalculi.Proofs.Safety
import LambdaCalculi.Proofs.Settling
import LambdaCalculi.Proofs.Simple.Acceptance
import LambdaCalculi.Proofs.Simple.Adequacy
import LambdaCalculi.Proofs.Simple.Agreement
import LambdaCalculi.Proofs.Simple.Bounds
import LambdaCalculi.Proofs.Simple.Contexts
import LambdaCalculi.Proofs.Simple.Gluing
import LambdaCalculi.Proofs.Simple.LongNormalForms
import LambdaCalculi.Proofs.Simple.MeaningOfPrograms
import LambdaCalculi.Proofs.Simple.Nameless
import LambdaCalculi.Proofs.Simple.NaturalSemantics
import LambdaCalculi.Proofs.Simple.Normalization
import LambdaCalculi.Proofs.Simple.Places
import LambdaCalculi.Proofs.Simple.Relevance
import LambdaCalculi.Proofs.Simple.ResultShape
import LambdaCalculi.Proofs.Simple.StandardModel
import LambdaCalculi.Proofs.Simple.Theory
import LambdaCalculi.Proofs.Simple.TypedValues
import LambdaCalculi.Proofs.Simple.TypingRules
import LambdaCalculi.Proofs.Untyped.Bounds
import LambdaCalculi.Proofs.Untyped.ChurchArithmetic
import LambdaCalculi.Proofs.Untyped.LexicalScoping
import LambdaCalculi.Proofs.Untyped.Nameless
import LambdaCalculi.Proofs.Untyped.NamesInUse
import LambdaCalculi.Proofs.Untyped.NestedDefinitions
import LambdaCalculi.Proofs.Untyped.Normalization
import LambdaCalculi.Proofs.Untyped.Reduction
import LambdaCalculi.Proofs.Untyped.Renaming
import LambdaCalculi.Proofs.Untyped.StableNormalForms
import LambdaCalculi.Proofs.Untyped.StrongNormalization
import LambdaCalculi.Simple.Arithmetic
import LambdaCalculi.Simple.Eval
import LambdaCalculi.Simple.Program
import LambdaCalculi.Simple.ReadBack
import LambdaCalculi.Simple.Term
import LambdaCalculi.Simple.Typing
import LambdaCalculi.Text.Printable
import LambdaCalculi.Text.Quoted
import LambdaCalculi.Untyped.Church
import LambdaCalculi.Untyped.Eval
import LambdaCalculi.Untyped.Normalize
import LambdaCalculi.Untyped.Program
import LambdaCalculi.Untyped.Term
