import Pipework.Artifact
import Pipework.Codec.Basic
import Pipework.Codec.Choice
import Pipework.Codec.Collection
import Pipework.Codec.Record
import Pipework.Codec.Tagged
import Pipework.CommandLine.Arguments
import Pipework.CommandLine.Input
import Pipework.CommandLine.Run
import Pipework.CommandLine.Settings
import Pipework.Compile
import Pipework.CompileError
import Pipework.Declaration
import Pipework.Deployment
import Pipework.Dict
import Pipework.Document
import Pipework.Document.Text
import Pipework.Double.Basic
import Pipework.Double.Decimal
import Pipework.Double.Text
import Pipework.Environment.Basic
import Pipework.Environment.File
import Pipework.Environment.Setting
import Pipework.FileTree
import Pipework.Graph.Basic
import Pipework.Graph.Cycle
import Pipework.Graph.Layers
import Pipework.Json.Basic
import Pipework.Json.Fault
import Pipework.Json.Reader
import Pipework.Json.Scan
import Pipework.Json.Skip
import Pipework.Json.Walk
import Pipework.Json.Writer
import Pipework.Log.Compilation
import Pipework.Log.Event
import Pipework.Log.Preset
import Pipework.Main
import Pipework.Name
import Pipework.Pipeline.Adjacency
import Pipework.Pipeline.Assembly
import Pipework.Pipeline.Basic
import Pipework.Pipeline.Channels
import Pipework.Proofs.Codec.Entries
import Pipework.Proofs.Codec.Reading
import Pipework.Proofs.Codec.Rearranging
import Pipework.Proofs.Codec.Restoring
import Pipework.Proofs.Codec.Shape
import Pipework.Proofs.Codec.Yielding
import Pipework.Proofs.CommandLine.Run
import Pipework.Proofs.CommandLine.Settings
import Pipework.Proofs.Compile.Configurations
import Pipework.Proofs.Compile.Counts
import Pipework.Proofs.Compile.Defaults
import Pipework.Proofs.Compile.Extension
import Pipework.Proofs.Compile.Finite
import Pipework.Proofs.Compile.Independence
import Pipework.Proofs.Compile.Neighbours
import Pipework.Proofs.Compile.Queries
import Pipework.Proofs.Compile.ReadBack
import Pipework.Proofs.Compile.Rearranging
import Pipework.Proofs.Compile.Reordering
import Pipework.Proofs.Compile.Result
import Pipework.Proofs.Compile.Scan
import Pipework.Proofs.Compile.Valid
import Pipework.Proofs.Compile.Values
import Pipework.Proofs.Compile.Violations
import Pipework.Proofs.Correspondence
import Pipework.Proofs.Declaration.Calls
import Pipework.Proofs.Declaration.Entries
import Pipework.Proofs.Declaration.Integers
import Pipework.Proofs.Declaration.Members
import Pipework.Proofs.Declaration.RoundTrip
import Pipework.Proofs.Dict
import Pipework.Proofs.Document.Equality
import Pipework.Proofs.Document.Layout
import Pipework.Proofs.Document.RoundTrip
import Pipework.Proofs.Double.Exact
import Pipework.Proofs.Double.Finite
import Pipework.Proofs.Double.Overflow
import Pipework.Proofs.Environment.File
import Pipework.Proofs.Environment.Variables
import Pipework.Proofs.FileTree
import Pipework.Proofs.Graph.Acceptance
import Pipework.Proofs.Graph.Counters
import Pipework.Proofs.Graph.Edges
import Pipework.Proofs.Graph.Layers
import Pipework.Proofs.Graph.LongestPaths
import Pipework.Proofs.Graph.Moments
import Pipework.Proofs.Graph.Recursion
import Pipework.Proofs.Graph.Search
import Pipework.Proofs.Json.Encoding
import Pipework.Proofs.Json.Equality
import Pipework.Proofs.Json.Finite
import Pipework.Proofs.Json.Integers
import Pipework.Proofs.Json.Numerals
import Pipework.Proofs.Json.Printing
import Pipework.Proofs.Json.Raw
import Pipework.Proofs.Json.Reading
import Pipework.Proofs.Json.Rearranging
import Pipework.Proofs.Json.Skipping
import Pipework.Proofs.Name
import Pipework.Proofs.Pipeline.Assembly
import Pipework.Proofs.Pipeline.Coherence
import Pipework.Proofs.Pipeline.Declared
import Pipework.Proofs.Pipeline.Frame
import Pipework.Proofs.Pipeline.Graph
import Pipework.Proofs.Pipeline.Runs
import Pipework.Proofs.Pipeline.Settled
import Pipework.Proofs.Process
import Pipework.Proofs.Reports
import Pipework.Resolver
import Pipework.Sha256
import Pipework.Text.CharClass
import Pipework.Text.ControlSequence
import Pipework.Text.Quoted
import Pipework.Toml.Date
import Pipework.Toml.Number
import Pipework.Toml.Reader
import Pipework.Toml.Scan
import Pipework.Toml.Table
import Pipework.Value
