import ScopedCss.Main
import ScopedCss.Proofs.Composition.Cycles
import ScopedCss.Proofs.Composition.Plain
import ScopedCss.Proofs.Preprocessing
import ScopedCss.Proofs.Scoping.Accumulated
import ScopedCss.Proofs.Composition.Exports
import ScopedCss.Proofs.Build.Steps
import ScopedCss.Proofs.Scoping.Substitution
import ScopedCss.Proofs.Scoping.Lossless
import ScopedCss.Proofs.Build.Handed
import ScopedCss.Proofs.Cache.Lookup
import ScopedCss.Proofs.Build.Rebuild
import ScopedCss.Proofs.Preprocessing.Loaded
import ScopedCss.Proofs.Scoping.Comments
import ScopedCss.Proofs.Cache.Persistent
import ScopedCss.Proofs.Build.Taken
import ScopedCss.Proofs.Naming.Parts
import ScopedCss.Proofs.Build.Accounts
import ScopedCss.Proofs.Dialect.Tree
import ScopedCss.Proofs.Dialect.Brace
import ScopedCss.Proofs.Dialect.Indented
import ScopedCss.Proofs.Dialect.Reference
import ScopedCss.Proofs.Dialect.Agree
import ScopedCss.Proofs.Disk.Region
import ScopedCss.Proofs.Composition.Region
import ScopedCss.Proofs.Disk.Tree
import ScopedCss.Proofs.Disk.Store
import ScopedCss.Proofs.Disk.Changes
import ScopedCss.Proofs.Disk.Stowed
import ScopedCss.Proofs.Cache.Served
import ScopedCss.Proofs.Build.Warm
import ScopedCss.Proofs.Build.Passes
import ScopedCss.Proofs.Build.Repeated
import ScopedCss.Proofs.CommandLine.Again
import ScopedCss.Proofs.Cache.Genuine
import ScopedCss.Proofs.Build.Texts
import ScopedCss.Proofs.Preprocessing.Globals
import ScopedCss.Proofs.Preprocessing.Lines
import ScopedCss.Proofs.Composition.Transitive
import ScopedCss.Proofs.Composition.Respelled
import ScopedCss.Proofs.Build.InMemory
import ScopedCss.Proofs.Build.Included
import ScopedCss.Proofs.Scoping.Lines
import ScopedCss.Proofs.Scoping.Declared
import ScopedCss.Proofs.Scoping.Global
import ScopedCss.Proofs.Scoping.SameFile
import ScopedCss.Proofs.Dialect.OpenFiles
import ScopedCss.Proofs.Dialect.Flattened
import ScopedCss.Proofs.Build.Deliveries
import ScopedCss.Proofs.Build.Passthrough
import ScopedCss.Proofs.Path.Packages
import ScopedCss.Proofs.Dialect.Inclusion
import ScopedCss.Proofs.Dialect.Blocks
import ScopedCss.Proofs.Path.Base
import ScopedCss.Proofs.Naming.Moved
import ScopedCss.Proofs.Composition.Collisions
import ScopedCss.Proofs.Text.Replace
import ScopedCss.Proofs.Path.Descent
import ScopedCss.Proofs.Output.Identity
import ScopedCss.Proofs.Output.Targets
import ScopedCss.Proofs.Cache.Known
import ScopedCss.Proofs.CommandLine.Artifacts
import ScopedCss.Proofs.Output.Placeholders
import ScopedCss.Proofs.Dialect.Comments
import ScopedCss.Proofs.Scoping.Asked
import ScopedCss.Proofs.Options.Fingerprint
import ScopedCss.Proofs.Naming.Template
import ScopedCss.Proofs.Dialect.Selectors
import ScopedCss.Proofs.Dialect.Flags
