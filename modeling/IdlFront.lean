import IdlFront.Artifact.Decode
import IdlFront.Artifact.Encode
import IdlFront.Command
import IdlFront.Command.Arguments
import IdlFront.Command.Build
import IdlFront.Command.Check
import IdlFront.Command.Dump
import IdlFront.Command.Interface
import IdlFront.Command.Request
import IdlFront.Command.Session
import IdlFront.Diagnostic
import IdlFront.Files.Glob
import IdlFront.Files.Path
import IdlFront.Files.Store
import IdlFront.Files.Wildcard
import IdlFront.Identifier
import IdlFront.Json
import IdlFront.Json.Display
import IdlFront.Json.Lexical
import IdlFront.Json.Printer
import IdlFront.Json.Reader
import IdlFront.Main
import IdlFront.Number.Binary64
import IdlFront.Number.Shortest
import IdlFront.Parser
import IdlFront.Parser.Attribute
import IdlFront.Parser.Declaration
import IdlFront.Parser.Recovery
import IdlFront.Parser.Repetition
import IdlFront.Parser.State
import IdlFront.Parser.TypeRef
import IdlFront.Project.Build
import IdlFront.Project.Config
import IdlFront.Project.Limits
import IdlFront.Project.Sources
import IdlFront.Proofs.Artifact.Accepted
import IdlFront.Proofs.Artifact.Faithful
import IdlFront.Proofs.Artifact.RoundTrip
import IdlFront.Proofs.Command.Containment
import IdlFront.Proofs.Command.Endings
import IdlFront.Proofs.Command.Green
import IdlFront.Proofs.Command.Runs
import IdlFront.Proofs.Files.Growth
import IdlFront.Proofs.Files.Names
import IdlFront.Proofs.Files.Store
import IdlFront.Proofs.Grammar.Beginnings
import IdlFront.Proofs.Grammar.Completeness
import IdlFront.Proofs.Grammar.Containers
import IdlFront.Proofs.Grammar.DeclarationCompleteness
import IdlFront.Proofs.Grammar.DeclarationMending
import IdlFront.Proofs.Grammar.DeclarationSoundness
import IdlFront.Proofs.Grammar.Exchange
import IdlFront.Proofs.Grammar.FaultReports
import IdlFront.Proofs.Grammar.Faults
import IdlFront.Proofs.Grammar.Initializers
import IdlFront.Proofs.Grammar.Integral
import IdlFront.Proofs.Grammar.Isolation
import IdlFront.Proofs.Grammar.Mending
import IdlFront.Proofs.Grammar.Omission
import IdlFront.Proofs.Grammar.Productions
import IdlFront.Proofs.Grammar.Recognition
import IdlFront.Proofs.Grammar.Regions
import IdlFront.Proofs.Grammar.Soundness
import IdlFront.Proofs.Json.Lexing
import IdlFront.Proofs.Json.RoundTrip
import IdlFront.Proofs.Json.Torn
import IdlFront.Proofs.Lexical.Decomposition
import IdlFront.Proofs.Lexical.Lexicon
import IdlFront.Proofs.Lexical.Names
import IdlFront.Proofs.Lexical.Numbers
import IdlFront.Proofs.Lexical.Places
import IdlFront.Proofs.Lexical.Scanning
import IdlFront.Proofs.Lexical.Strictness
import IdlFront.Proofs.Lexical.Trivia
import IdlFront.Proofs.Parser.Accepting
import IdlFront.Proofs.Parser.Blocks
import IdlFront.Proofs.Parser.Braces
import IdlFront.Proofs.Parser.Confinement
import IdlFront.Proofs.Parser.Interleaving
import IdlFront.Proofs.Parser.Motion
import IdlFront.Proofs.Parser.Placeless
import IdlFront.Proofs.Parser.Placement
import IdlFront.Proofs.Parser.Progress
import IdlFront.Proofs.Parser.Punctual
import IdlFront.Proofs.Parser.Reading
import IdlFront.Proofs.Parser.Recovering
import IdlFront.Proofs.Parser.Skipping
import IdlFront.Proofs.Parser.Spelling
import IdlFront.Proofs.Parser.Termination
import IdlFront.Proofs.Parser.Uniform
import IdlFront.Proofs.Project.Cache
import IdlFront.Proofs.Project.Failures
import IdlFront.Proofs.Project.History
import IdlFront.Proofs.Project.Listing
import IdlFront.Proofs.Project.Selection
import IdlFront.Proofs.Project.Slots
import IdlFront.Proofs.Project.Upkeep
import IdlFront.Proofs.Text.Utf8
import IdlFront.Proofs.Token.Arrivals
import IdlFront.Proofs.Tree.Bare
import IdlFront.Proofs.Tree.Outline
import IdlFront.Proofs.Tree.Spelling
import IdlFront.Schema
import IdlFront.Text.Quoted
import IdlFront.Text.Utf8
import IdlFront.Token
import IdlFront.Token.Buffer
import IdlFront.Token.Lexeme
import IdlFront.Token.Lexer
import IdlFront.Token.Stream
import IdlFront.Tree
import IdlFront.Tree.Names
import IdlFront.Tree.Walk
import IdlFront.Unicode.Category
import IdlFront.Unicode.Ranges
import IdlFront.Yaml.Cursor
import IdlFront.Yaml.Node
import IdlFront.Yaml.Scalar
import IdlFront.Yaml.Token
import IdlFront.Yaml.Value
import IdlFront.Proofs.Project.Healing
import IdlFront.Proofs.Project.Loading
import IdlFront.Proofs.Project.Sources
import IdlFront.Proofs.Lexical.Joining
import IdlFront.Proofs.Grammar.Insertion
import IdlFront.Proofs.Grammar.Imports
import IdlFront.Proofs.Parser.Candid
import IdlFront.Proofs.Parser.Paths
import IdlFront.Proofs.Parser.Visiting
import IdlFront.Proofs.Token.Buffering
import IdlFront.Proofs.Token.Timely
import IdlFront.Proofs.Parser.Headway
import IdlFront.Proofs.Parser.Restraint
import IdlFront.Proofs.Parser.Sparing
import IdlFront.Proofs.Tree.Traversal
import IdlFront.Proofs.Files.Rewriting
import IdlFront.Proofs.Command.Counting
import IdlFront.Proofs.Command.Independence
