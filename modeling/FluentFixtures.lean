import FluentFixtures.Main
import FluentFixtures.Proofs.Command.Normalize
import FluentFixtures.Proofs.Command.Rules
import FluentFixtures.Proofs.Command.Settings
import FluentFixtures.Proofs.Config.Entrywise
import FluentFixtures.Proofs.Config.Members
import FluentFixtures.Proofs.Document.Stable
import FluentFixtures.Proofs.Files.Discovery
import FluentFixtures.Proofs.Fixture.Directory
import FluentFixtures.Proofs.Fixture.Schedule
import FluentFixtures.Proofs.Fixture.Unchanged
import FluentFixtures.Proofs.Json.Malformed
import FluentFixtures.Proofs.Passes.Elements
import FluentFixtures.Proofs.Passes.Faults
import FluentFixtures.Proofs.Passes.Implied
import FluentFixtures.Proofs.Passes.Recursion
import FluentFixtures.Proofs.Passes.Absorb
import FluentFixtures.Proofs.Tree.Replace
import FluentFixtures.Proofs.Json.Rows
import FluentFixtures.Proofs.Json.Difference
import FluentFixtures.Proofs.Json.Nesting
import FluentFixtures.Proofs.Fixture.Stored
