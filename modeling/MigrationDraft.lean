import MigrationDraft.FileTree
import MigrationDraft.Json.Reader
import MigrationDraft.Main
import MigrationDraft.Proofs.Files.Writing
import MigrationDraft.Proofs.Inflection.Endings
import MigrationDraft.Proofs.Inflection.Inverse
import MigrationDraft.Proofs.Inflection.Shift
import MigrationDraft.Proofs.Inflection.Stability
import MigrationDraft.Proofs.Inflection.Words
import MigrationDraft.Proofs.Intent.CanonicalNames
import MigrationDraft.Proofs.Intent.Forward
import MigrationDraft.Proofs.Json.ReadBack
import MigrationDraft.Proofs.Json.Records
import MigrationDraft.Proofs.Options.History
import MigrationDraft.Proofs.Rendering.BalancedCode
import MigrationDraft.Proofs.Rendering.ColumnNames
import MigrationDraft.Proofs.Rendering.Completion
import MigrationDraft.Proofs.Rendering.FileNames
import MigrationDraft.Proofs.Rendering.FileOrder
import MigrationDraft.Proofs.Rendering.ImplicitColumns
import MigrationDraft.Proofs.Rendering.MigrationFile
import MigrationDraft.Proofs.Rendering.Names
import MigrationDraft.Proofs.Rendering.PivotFile
import MigrationDraft.Proofs.Rendering.PivotNames
import MigrationDraft.Proofs.Rendering.Recovery
import MigrationDraft.Proofs.Rendering.Verbatim
import MigrationDraft.Proofs.Session.Failures
import MigrationDraft.Proofs.Session.Presentations
import MigrationDraft.Proofs.Session.Sources
import MigrationDraft.Proofs.Session.Writing
import MigrationDraft.Proofs.Shorthand.Commas
import MigrationDraft.Proofs.Shorthand.ForeignKeys
import MigrationDraft.Proofs.Shorthand.Grammar
import MigrationDraft.Proofs.Shorthand.Invariant
import MigrationDraft.Proofs.Shorthand.Offsets
import MigrationDraft.Proofs.Shorthand.Reprinting
import MigrationDraft.Proofs.Shorthand.Segments
import MigrationDraft.Proofs.Shorthand.Separators
import MigrationDraft.Proofs.Stubs.Loading
import MigrationDraft.Proofs.Template.OwnLine
import MigrationDraft.Proofs.Template.Simultaneous
import MigrationDraft.Proofs.Text.Bytes
import MigrationDraft.Proofs.Text.LetterCase
import MigrationDraft.Proofs.Text.Order
import MigrationDraft.Proofs.Text.SelfDelimiting
import MigrationDraft.Proofs.Text.Splitting
