import TreeBroker.Arena.Basic
import TreeBroker.Arena.Script
import TreeBroker.Arena.Sexp
import TreeBroker.Backend.Conformance
import TreeBroker.Backend.Kind
import TreeBroker.Backend.Manifest
import TreeBroker.Discovery
import TreeBroker.Engine.Basic
import TreeBroker.Engine.StandIns
import TreeBroker.Engine.Tree
import TreeBroker.Error
import TreeBroker.FileSystem
import TreeBroker.FileSystem.Change
import TreeBroker.Grammar.Assignment
import TreeBroker.Grammar.Basic
import TreeBroker.Json
import TreeBroker.Language
import TreeBroker.Log
import TreeBroker.Name
import TreeBroker.Parser
import TreeBroker.Path.Basic
import TreeBroker.Path.Components
import TreeBroker.Path.Rejection
import TreeBroker.Position
import TreeBroker.Proofs.Actions
import TreeBroker.Proofs.Engines
import TreeBroker.Proofs.ParserLanguage
import TreeBroker.Proofs.ParserRuns
import TreeBroker.Proofs.RegistryChanges
import TreeBroker.Proofs.RegistryRuns
import TreeBroker.Proofs.Substitution
import TreeBroker.Registration
import TreeBroker.Registry.Basic
import TreeBroker.Registry.Operations
import TreeBroker.Scope
import TreeBroker.Settings
import TreeBroker.Symbol
import TreeBroker.Text.Ascii
import TreeBroker.Text.Diagnostic
import TreeBroker.Text.Quoted
import TreeBroker.Text.Sorted
import TreeBroker.Text.Unprintable
import TreeBroker.Text.Utf8
import TreeBroker.Text.WhiteSpace
import TreeBroker.Tree
import TreeBroker.World
import TreeBroker.Yaml.Lexer
import TreeBroker.Yaml.Node
import TreeBroker.Yaml.Printer
import TreeBroker.Yaml.Scalar
import TreeBroker.Yaml.Tag
import TreeBroker.Yaml.Token
import TreeBroker.Proofs.CanonicalPaths
import TreeBroker.Proofs.Containment
import TreeBroker.Proofs.RegistryTables
import TreeBroker.Proofs.Supply
import TreeBroker.Proofs.Utf8Decoding
import TreeBroker.Proofs.CacheSoundness
import TreeBroker.Proofs.Freshness
import TreeBroker.Proofs.ConcurrentLoads
import TreeBroker.Proofs.RegistryFrames
import TreeBroker.Proofs.ScopeGuards
import TreeBroker.Proofs.BuilderRuns
import TreeBroker.Proofs.Scripts
import TreeBroker.Proofs.ArenaLinks
import TreeBroker.Proofs.GrammarNodes
import TreeBroker.Proofs.Forests
import TreeBroker.Proofs.Tilings
import TreeBroker.Proofs.AssignmentLines
import TreeBroker.Proofs.AssignmentTrees
import TreeBroker.Proofs.TextPaths
import TreeBroker.Proofs.LibraryNames
import TreeBroker.Proofs.SlotCategories
import TreeBroker.Proofs.Reparsing
import TreeBroker.Proofs.Overlay
import TreeBroker.Proofs.Verdicts
import TreeBroker.Proofs.ErrorFlags
import TreeBroker.Proofs.LocatedLibraries
import TreeBroker.Proofs.PreOrder
import TreeBroker.Proofs.Choosing
import TreeBroker.Proofs.Priority
import TreeBroker.Proofs.Fallback
import TreeBroker.Proofs.OtherBackends
import TreeBroker.Proofs.SideBySide
import TreeBroker.Proofs.ParsersSideBySide
import TreeBroker.Proofs.FailedCalls
import TreeBroker.Proofs.JoinedLines
import TreeBroker.Proofs.Points
import TreeBroker.Proofs.LibraryPaths
import TreeBroker.Proofs.NormalNames
import TreeBroker.Proofs.Declarations
import TreeBroker.Proofs.Splices
import TreeBroker.Proofs.PlainScalars
import TreeBroker.Proofs.QuotedScalars
import TreeBroker.Proofs.BlockScalars
import TreeBroker.Proofs.LexerTurns
import TreeBroker.Proofs.DocumentLines
import TreeBroker.Proofs.WrittenDocuments
import TreeBroker.Proofs.Persistence
import TreeBroker.Proofs.ShownForests
import TreeBroker.Proofs.Parentheses
import TreeBroker.Proofs.DirectoryCandidates
