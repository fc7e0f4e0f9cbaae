import CompileFlags.CommandLine.Written
import CompileFlags.Main
import CompileFlags.Project.Handles
import CompileFlags.Project.Interleaving
import CompileFlags.Proofs.CommandLine.Acceptance
import CompileFlags.Proofs.CommandLine.Agreement
import CompileFlags.Proofs.CommandLine.Findings
import CompileFlags.Proofs.CommandLine.Groups
import CompileFlags.Proofs.CommandLine.RoundTrip
import CompileFlags.Proofs.Database.Blame
import CompileFlags.Proofs.Database.Feedback
import CompileFlags.Proofs.Database.Invocation
import CompileFlags.Proofs.Database.Places
import CompileFlags.Proofs.Database.Truncation
import CompileFlags.Proofs.Flags.Grammar
import CompileFlags.Proofs.Flags.Independence
import CompileFlags.Proofs.Flags.Standalone
import CompileFlags.Proofs.Path.Canonical
import CompileFlags.Proofs.Search.Candidates
import CompileFlags.Proofs.Search.Probing
import CompileFlags.Proofs.Session.Failure
import CompileFlags.Proofs.Session.Handles
import CompileFlags.Proofs.Session.Lookup
import CompileFlags.Proofs.Session.Order
import CompileFlags.Proofs.Session.Place
import CompileFlags.Proofs.Session.Sharing
import CompileFlags.Proofs.Session.Transparency
import CompileFlags.Proofs.Text.Quotation
import CompileFlags.Proofs.World.FileTree
import CompileFlags.Search.Probes
import CompileFlags.Text.Spelling
import CompileFlags.World.FileTree
