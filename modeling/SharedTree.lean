import SharedTree.Mapping.Json
import SharedTree.Node.Outline
import SharedTree.Path.Compiler
import SharedTree.Pipeline.Basic
import SharedTree.Proofs.Mapping.RoundTrip
import SharedTree.Proofs.Node.Renewed
import SharedTree.Proofs.Node.Update
import SharedTree.Proofs.Path.Evaluate
import SharedTree.Proofs.Selector.Meaning
import SharedTree.Proofs.Transform.Removal
import SharedTree.Proofs.Tree.Index
import SharedTree.Proofs.Tree.Places
import SharedTree.Proofs.Tree.Reparent
import SharedTree.Selector.Find
import SharedTree.Selector.Probe
import SharedTree.Session.Basic
import SharedTree.Transform.Change
import SharedTree.Transform.Removal
import SharedTree.Tree.Shown
import SharedTree.Unicode.Folding
import SharedTree.Proofs.Path.Recency
import SharedTree.Proofs.Path.Compiler
import SharedTree.Proofs.Node.Keeps
import SharedTree.Proofs.Session.Memory
import SharedTree.Proofs.Transform.Pruning
import SharedTree.Proofs.Transform.Sharing
import SharedTree.Proofs.Path.Joined
import SharedTree.Proofs.Path.Literal
import SharedTree.Proofs.Pipeline.Run
import SharedTree.Proofs.Value.Fields
import SharedTree.Tree.Survey
import SharedTree.Proofs.Mapping.Value
import SharedTree.Proofs.Tree.Standing
import SharedTree.Proofs.Path.Filtered
import SharedTree.Proofs.Tree.Repeated
import SharedTree.Proofs.Transform.Alternatives
import SharedTree.Proofs.Value.Comparison
import SharedTree.Proofs.Mapping.Reached
import SharedTree.Proofs.Text.Glob
import SharedTree.Proofs.Selector.Calls
import SharedTree.Proofs.Value.Equality
import SharedTree.Proofs.Node.Equal
import SharedTree.Proofs.Transform.Changed
import SharedTree.Proofs.Transform.Labelled
import SharedTree.Proofs.Transform.Remade
import SharedTree.Proofs.Number.Range
import SharedTree.Proofs.Path.Numeral
import SharedTree.Proofs.Path.Regex
import SharedTree.Proofs.Path.Equality
import SharedTree.Proofs.Path.Spelling
import SharedTree.Proofs.Path.Filters
import SharedTree.Proofs.Path.Null
import SharedTree.Proofs.Pattern.Rounds
import SharedTree.Proofs.Pattern.Search
import SharedTree.Proofs.Pattern.Decided
import SharedTree.Proofs.Pattern.Classes
import SharedTree.Proofs.Pattern.Steps
import SharedTree.Proofs.Pattern.Counts
import SharedTree.Proofs.Pattern.Anchored
import SharedTree.Proofs.Text.Distance
import SharedTree.Proofs.Path.Threshold
import SharedTree.Path.Offsets
import SharedTree.Proofs.Path.Faults
import SharedTree.Proofs.Path.Sound
import SharedTree.Proofs.Tree.Walks
import SharedTree.Proofs.Mapping.Names
import SharedTree.Proofs.Node.Frame
import SharedTree.Proofs.Node.Same
