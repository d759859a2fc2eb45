import PhpNames.Text.Trim
import PhpNames.Text.Letters
import PhpNames.Text.Template
import PhpNames.Decimal.Shortest
import PhpNames.Decimal.Layout
import PhpNames.Json.Number
import PhpNames.Json.Value
import PhpNames.Json.Scan
import PhpNames.Json.Document
import PhpNames.Json.Record
import PhpNames.UnionType.Native
import PhpNames.UnionType.Basic
import PhpNames.UnionType.Cache
import PhpNames.UnionType.Json
import PhpNames.Tree.Kind
import PhpNames.Tree.Node
import PhpNames.Tree.Json
import PhpNames.Scope
import PhpNames.Context.Alias
import PhpNames.Context.Namespace
import PhpNames.Context.Basic
import PhpNames.Diagnostic
import PhpNames.Event
import PhpNames.Resolve.Error
import PhpNames.Resolve.Options
import PhpNames.Resolve.Names
import PhpNames.Resolve.Types
import PhpNames.Resolve.Variables
import PhpNames.Resolve.Expressions
import PhpNames.Resolve.Session
import PhpNames.ClassName
import PhpNames.Property
import PhpNames.UnitDescription
import PhpNames.LogSettings
import PhpNames.Proofs.Text.Trimmed
import PhpNames.Proofs.Text.Lowered
import PhpNames.Proofs.Text.Placeholders
import PhpNames.Proofs.Text.OnePass
import PhpNames.Proofs.Decimal.Digits
import PhpNames.Proofs.Json.Nesting
import PhpNames.Proofs.Json.Literals
import PhpNames.Proofs.Json.Tokens
import PhpNames.Proofs.Json.Written
import PhpNames.Proofs.Json.Members
import PhpNames.Proofs.UnionType.FirstSeen
import PhpNames.Proofs.UnionType.RoundTrip
import PhpNames.Proofs.UnionType.CacheRuns
import PhpNames.Proofs.UnionType.Made
import PhpNames.Proofs.UnionType.Joining
import PhpNames.Proofs.UnionType.NativeNames
import PhpNames.Proofs.UnionType.NativeGrammar
import PhpNames.Proofs.UnionType.Marking
import PhpNames.Proofs.Resolve.Recorded
import PhpNames.Proofs.Resolve.TypePositions
import PhpNames.Proofs.Resolve.History
import PhpNames.Proofs.Resolve.Silent
import PhpNames.Proofs.Resolve.VariableNames
import PhpNames.Proofs.Resolve.VariableTypes
import PhpNames.Proofs.Resolve.NamePositions
import PhpNames.Proofs.Resolve.Faults
import PhpNames.Proofs.Resolve.FunctionNames
import PhpNames.Proofs.Resolve.NativeTexts
import PhpNames.Proofs.Resolve.NameLists
import PhpNames.Proofs.Resolve.Reporting
import PhpNames.Proofs.Context.Segments
import PhpNames.Proofs.Context.Qualification
import PhpNames.Proofs.Context.BuildRuns
import PhpNames.Proofs.Context.RootedPaths
import PhpNames.Proofs.Context.Reread
import PhpNames.Proofs.Context.FirstSegment
import PhpNames.Proofs.Resolve.ContextReads
import PhpNames.Proofs.Property.DeclaredType
import PhpNames.Proofs.ClassName.Names
import PhpNames.Proofs.ClassName.LetterCase
import PhpNames.Proofs.ClassName.Spellings
import PhpNames.Proofs.Tree.Depth
import PhpNames.Proofs.Tree.RoundTrip
import PhpNames.Proofs.Tree.Reread
import PhpNames.Proofs.Tree.Grammar
import PhpNames.Proofs.UnitDescription.FinalMembers
