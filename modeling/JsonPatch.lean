import JsonPatch.Pointer.Wire
import JsonPatch.Check
import JsonPatch.Corpus
import JsonPatch.CommandLine.Directory
import JsonPatch.Main
import JsonPatch.Proofs.Descent
import JsonPatch.Proofs.Changes
import JsonPatch.Proofs.RemoveThenAdd
import JsonPatch.Proofs.Meaning
import JsonPatch.Proofs.Agreement
import JsonPatch.Proofs.Ordered
import JsonPatch.Proofs.Pointer.Ancestry
import JsonPatch.Proofs.Pointer.Index
import JsonPatch.Proofs.Walk
import JsonPatch.Proofs.Reports
import JsonPatch.Proofs.Independence
import JsonPatch.Proofs.Undo
import JsonPatch.Proofs.Effect
import JsonPatch.Proofs.Conservation
import JsonPatch.Proofs.Pointer.Spelling
import JsonPatch.Proofs.Wire
import JsonPatch.Proofs.Json.Numeral
import JsonPatch.Proofs.Json.Scan
import JsonPatch.Proofs.Json.Reading
import JsonPatch.Proofs.Json.Text
import JsonPatch.Proofs.Rereading
import JsonPatch.Proofs.Survival
import JsonPatch.Proofs.Pointer.Respelling
import JsonPatch.Proofs.Guards
import JsonPatch.Proofs.Stepwise
import JsonPatch.Proofs.Unguarded.Operation
import JsonPatch.Proofs.Unguarded.Application
import JsonPatch.Proofs.Sample
import JsonPatch.Proofs.Safety
import JsonPatch.Proofs.Number.Stored
import JsonPatch.Proofs.Obtainable
import JsonPatch.Proofs.Equality
import JsonPatch.Proofs.Description.Patch
import JsonPatch.Proofs.Diagnostics
import JsonPatch.Proofs.Places
import JsonPatch.Proofs.Pointer.Codec
import JsonPatch.Proofs.Pointer.Grammar
import JsonPatch.Proofs.Pointer.Position
import JsonPatch.Proofs.Lens
import JsonPatch.Proofs.Yaml.Acceptance
import JsonPatch.Proofs.Fixture.Nested
import JsonPatch.Proofs.CommandLine.Canonical
import JsonPatch.Proofs.CommandLine.Stages
