import HttpRouting.Cli.Arguments
import HttpRouting.Cli.Command
import HttpRouting.Cli.Report
import HttpRouting.Dict
import HttpRouting.Event
import HttpRouting.Handler.Exchange
import HttpRouting.Handler.Query
import HttpRouting.Handler.Run
import HttpRouting.Handler.Script
import HttpRouting.LoadError
import HttpRouting.Logging.Sampler
import HttpRouting.Logging.Settings
import HttpRouting.Main
import HttpRouting.Manifest
import HttpRouting.Method
import HttpRouting.Number.Float
import HttpRouting.Number.Shortest
import HttpRouting.Params
import HttpRouting.Path
import HttpRouting.Pattern.Basic
import HttpRouting.Pattern.Parser
import HttpRouting.Pattern.Regex
import HttpRouting.Pattern.Subsumption
import HttpRouting.Proofs.Dict
import HttpRouting.Proofs.Handler.Chain
import HttpRouting.Proofs.Handler.Course
import HttpRouting.Proofs.Handler.Failure
import HttpRouting.Proofs.Handler.Onion
import HttpRouting.Proofs.Logging.Sampling
import HttpRouting.Proofs.Manifest
import HttpRouting.Proofs.Params
import HttpRouting.Proofs.Path
import HttpRouting.Proofs.Pattern.Grammar
import HttpRouting.Proofs.Pattern.Inclusion
import HttpRouting.Proofs.Pattern.Language
import HttpRouting.Proofs.Pattern.Parsing
import HttpRouting.Proofs.Pattern.Regex
import HttpRouting.Proofs.Pattern.Samples
import HttpRouting.Proofs.Pattern.Segments
import HttpRouting.Proofs.Pattern.Spelling
import HttpRouting.Proofs.Pattern.Subsumption
import HttpRouting.Proofs.Pattern.Walkable
import HttpRouting.Proofs.Router.Captures
import HttpRouting.Proofs.Router.Compaction
import HttpRouting.Proofs.Router.Growth
import HttpRouting.Proofs.Router.History
import HttpRouting.Proofs.Router.Insertion
import HttpRouting.Proofs.Router.Integers
import HttpRouting.Proofs.Router.Keys
import HttpRouting.Proofs.Router.LetterCase
import HttpRouting.Proofs.Router.Listing
import HttpRouting.Proofs.Router.Matching
import HttpRouting.Proofs.Router.Methods
import HttpRouting.Proofs.Router.Names
import HttpRouting.Proofs.Router.Order
import HttpRouting.Proofs.Router.Priority
import HttpRouting.Proofs.Router.Reached
import HttpRouting.Proofs.Router.Reads
import HttpRouting.Proofs.Router.Registration
import HttpRouting.Proofs.Router.Resolution
import HttpRouting.Proofs.Router.Sharing
import HttpRouting.Proofs.Router.Slicing
import HttpRouting.Proofs.Router.Snapshots
import HttpRouting.Proofs.Router.Tables
import HttpRouting.Proofs.Router.Unreachable
import HttpRouting.Proofs.Router.Variants
import HttpRouting.Proofs.Router.Walk
import HttpRouting.Proofs.Service.Allowed
import HttpRouting.Proofs.Service.Containment
import HttpRouting.Proofs.Service.Middleware
import HttpRouting.Proofs.Service.Reachable
import HttpRouting.Proofs.Service.Redirects
import HttpRouting.Proofs.Service.Steps
import HttpRouting.Proofs.Store.Families
import HttpRouting.Proofs.Text.Boundary
import HttpRouting.Proofs.Text.Folding
import HttpRouting.Proofs.Text.LetterCase
import HttpRouting.Proofs.Text.Utf8
import HttpRouting.RequestId
import HttpRouting.Router.Basic
import HttpRouting.Router.Describe
import HttpRouting.Router.Key
import HttpRouting.Router.Listing
import HttpRouting.Router.Reading
import HttpRouting.Router.Registration
import HttpRouting.Router.Resolution
import HttpRouting.Router.Route
import HttpRouting.Router.Slicing
import HttpRouting.Router.Tree
import HttpRouting.Router.Versions
import HttpRouting.RoutingError
import HttpRouting.Service.Basic
import HttpRouting.Service.Outcome
import HttpRouting.Settings
import HttpRouting.Store.Handles
import HttpRouting.Store.Value
import HttpRouting.Text.Basic
import HttpRouting.Text.Hidden
import HttpRouting.Text.Quoted
import HttpRouting.Text.Utf8
import HttpRouting.Yaml.Lexer
import HttpRouting.Yaml.Node
import HttpRouting.Yaml.Scalar
import HttpRouting.Yaml.Token
