import TreePattern.Cli.FileTree
import TreePattern.Main
import TreePattern.Proofs.Match.Example
import TreePattern.Proofs.Match.Limit
import TreePattern.Proofs.Match.Unfolding
import TreePattern.Proofs.Match.Refinement
import TreePattern.Proofs.Pattern.Wrapping
import TreePattern.Proofs.Match.Correspondence
import TreePattern.Proofs.Match.Wrapping
import TreePattern.Proofs.Match.Relevance
import TreePattern.Proofs.Match.Entries
import TreePattern.Proofs.Match.Invariant
import TreePattern.Proofs.Match.Grouping
import TreePattern.Proofs.Match.Naming
import TreePattern.Proofs.Match.Provenance
import TreePattern.Proofs.Tree.Representation
import TreePattern.Proofs.Tree.Arena
import TreePattern.Proofs.Pattern.Fault
import TreePattern.Proofs.Pattern.Renaming
import TreePattern.Proofs.Match.Nesting
import TreePattern.Proofs.Match.Weakening
import TreePattern.Proofs.Pattern.Loaded
import TreePattern.Proofs.Pattern.Writing
import TreePattern.Proofs.Pattern.Culprit
import TreePattern.Proofs.Cli.Forwarding
import TreePattern.Proofs.Cli.Inspection
import TreePattern.Proofs.Cli.Filling
import TreePattern.Proofs.Cli.Precedence
import TreePattern.Proofs.Cli.Listing
import TreePattern.Proofs.Cli.Document
import TreePattern.Proofs.Pattern.Session
import TreePattern.Proofs.Match.Homomorphism
