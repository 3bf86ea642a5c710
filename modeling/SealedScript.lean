import SealedScript.Artifact.Block
import SealedScript.Artifact.Extract
import SealedScript.Artifact.Resolve
import SealedScript.Artifact.Seal
import SealedScript.Artifact.Trailer
import SealedScript.Base64
import SealedScript.CallShape
import SealedScript.CommandLine
import SealedScript.CommandLine.Arguments
import SealedScript.CommandLine.Basic
import SealedScript.CommandLine.Report
import SealedScript.CommandLine.Usage
import SealedScript.Digest
import SealedScript.Engine
import SealedScript.Error
import SealedScript.Executable
import SealedScript.Executable.Call
import SealedScript.Executable.Compile
import SealedScript.Executable.Storage
import SealedScript.FileTree
import SealedScript.FileTree.Node
import SealedScript.FileTree.Path
import SealedScript.Fingerprint
import SealedScript.Fingerprint.Blake3
import SealedScript.Floating.Decimal
import SealedScript.Floating.Format
import SealedScript.Floating.Number
import SealedScript.Floating.Shortest
import SealedScript.Frozen
import SealedScript.Header.Info
import SealedScript.Header.Launch
import SealedScript.Header.Marker
import SealedScript.Header.SignatureText
import SealedScript.Json
import SealedScript.Kind
import SealedScript.Loader
import SealedScript.Main
import SealedScript.Numeral
import SealedScript.Policy
import SealedScript.Program
import SealedScript.Program.Parse
import SealedScript.Program.Run
import SealedScript.Proofs.Access
import SealedScript.Proofs.Artifact.Agreement
import SealedScript.Proofs.Artifact.Alteration
import SealedScript.Proofs.Artifact.Block
import SealedScript.Proofs.Artifact.Block.Canonical
import SealedScript.Proofs.Artifact.Comment
import SealedScript.Proofs.Artifact.Extract
import SealedScript.Proofs.Artifact.Growth
import SealedScript.Proofs.Artifact.Offset
import SealedScript.Proofs.Artifact.Overflow
import SealedScript.Proofs.Artifact.Padding
import SealedScript.Proofs.Artifact.Recompile
import SealedScript.Proofs.Artifact.Recount
import SealedScript.Proofs.Artifact.Recovery
import SealedScript.Proofs.Artifact.RoundTrip
import SealedScript.Proofs.Artifact.Safe
import SealedScript.Proofs.Artifact.Seal
import SealedScript.Proofs.Artifact.Settled
import SealedScript.Proofs.Artifact.Trailer
import SealedScript.Proofs.Base64
import SealedScript.Proofs.Base64.Canonical
import SealedScript.Proofs.CommandLine.Arguments
import SealedScript.Proofs.CommandLine.Evaluation
import SealedScript.Proofs.Digest
import SealedScript.Proofs.Executable
import SealedScript.Proofs.Executable.Capture
import SealedScript.Proofs.Executable.Coherence
import SealedScript.Proofs.Executable.Compile
import SealedScript.Proofs.Executable.Effect
import SealedScript.Proofs.Executable.Forged
import SealedScript.Proofs.Executable.Origin
import SealedScript.Proofs.Executable.ReadWrite
import SealedScript.Proofs.Executable.Rebind
import SealedScript.Proofs.Executable.Trace
import SealedScript.Proofs.Executable.Use
import SealedScript.Proofs.FileTree.Frame
import SealedScript.Proofs.FileTree.Place
import SealedScript.Proofs.FileTree.Replace
import SealedScript.Proofs.Frozen
import SealedScript.Proofs.Header.Brackets
import SealedScript.Proofs.Header.Display
import SealedScript.Proofs.Header.Grammar
import SealedScript.Proofs.Header.Line
import SealedScript.Proofs.Header.Signature
import SealedScript.Proofs.Header.Spelling
import SealedScript.Proofs.Loader
import SealedScript.Proofs.Loader.Convergence
import SealedScript.Proofs.Loader.Memory
import SealedScript.Proofs.Loader.Report
import SealedScript.Proofs.Numeral
import SealedScript.Proofs.Outcome
import SealedScript.Proofs.Program.Compose
import SealedScript.Proofs.Program.Exact
import SealedScript.Proofs.Program.Offset
import SealedScript.Proofs.Program.Parse
import SealedScript.Proofs.Program.Run
import SealedScript.Proofs.Program.Stack
import SealedScript.Proofs.Program.Word
import SealedScript.Proofs.Record
import SealedScript.Proofs.Registry
import SealedScript.Proofs.Scope
import SealedScript.Proofs.Scope.Growth
import SealedScript.Proofs.Signature.Adjust
import SealedScript.Proofs.Signature.Again
import SealedScript.Proofs.Signature.Parts
import SealedScript.Proofs.Signature.Place
import SealedScript.Proofs.Signature.Refinement
import SealedScript.Proofs.Store
import SealedScript.Proofs.Text.Blank
import SealedScript.Proofs.Text.Boundary
import SealedScript.Proofs.Text.Join
import SealedScript.Proofs.Text.Match
import SealedScript.Proofs.Text.Measure
import SealedScript.Proofs.Text.Offset
import SealedScript.Proofs.Text.Search
import SealedScript.Proofs.Text.Utf8
import SealedScript.Proofs.Ty
import SealedScript.Proofs.Ty.Layers
import SealedScript.Proofs.Ty.Parse
import SealedScript.Proofs.Wire.Codec
import SealedScript.Proofs.Wire.Data
import SealedScript.Proofs.Wire.Truncation
import SealedScript.Record
import SealedScript.Registry
import SealedScript.Scope
import SealedScript.Signature
import SealedScript.Signature.Adjust
import SealedScript.Signature.Make
import SealedScript.Store
import SealedScript.Text.Basic
import SealedScript.Text.Blank
import SealedScript.Text.Measure
import SealedScript.Text.Utf8
import SealedScript.Ty
import SealedScript.Ty.Parse
import SealedScript.Value
import SealedScript.Value.Read
import SealedScript.Wire.Codec
import SealedScript.Wire.Data
import SealedScript.Yaml.BlockScalar
import SealedScript.Yaml.Cursor
import SealedScript.Yaml.Document
import SealedScript.Yaml.Layout
import SealedScript.Yaml.Property
import SealedScript.Yaml.Scalar
import SealedScript.Yaml.Token
