import CodeAtlas.Command.Arguments
import CodeAtlas.Command.Description
import CodeAtlas.Command.Help
import CodeAtlas.Command.Invocation
import CodeAtlas.Command.Run
import CodeAtlas.Declaration.Kinds
import CodeAtlas.Declaration.Parts
import CodeAtlas.Declaration.Pass
import CodeAtlas.DocBlock
import CodeAtlas.Index.Catalog
import CodeAtlas.Index.NameMap
import CodeAtlas.Index.Search
import CodeAtlas.Json.Decode
import CodeAtlas.Json.Library
import CodeAtlas.Json.Own
import CodeAtlas.Json.Reader
import CodeAtlas.Json.Value
import CodeAtlas.Json.Writer
import CodeAtlas.Main
import CodeAtlas.Name.Resolver
import CodeAtlas.Pool.Basic
import CodeAtlas.Pool.Hierarchy
import CodeAtlas.Pool.Lookup
import CodeAtlas.Proofs.ArrayForm
import CodeAtlas.Proofs.BatchOrder
import CodeAtlas.Proofs.BuiltDocuments
import CodeAtlas.Proofs.CatalogEntries
import CodeAtlas.Proofs.CatalogHistory
import CodeAtlas.Proofs.CatalogLookup
import CodeAtlas.Proofs.CatalogSearch
import CodeAtlas.Proofs.Crossing
import CodeAtlas.Proofs.DeclarationChanges
import CodeAtlas.Proofs.DeclarationGrowth
import CodeAtlas.Proofs.DeclarationInduction
import CodeAtlas.Proofs.DeclarationInvariant
import CodeAtlas.Proofs.DeclarationSteps
import CodeAtlas.Proofs.DeclaredSymbols
import CodeAtlas.Proofs.DeclaredVariables
import CodeAtlas.Proofs.DeferredNames
import CodeAtlas.Proofs.DocLayout
import CodeAtlas.Proofs.DocTags
import CodeAtlas.Proofs.ExactSearch
import CodeAtlas.Proofs.FlowEnvironment
import CodeAtlas.Proofs.FlowSemantics
import CodeAtlas.Proofs.FlowStack
import CodeAtlas.Proofs.GenericCollections
import CodeAtlas.Proofs.GenericTypes
import CodeAtlas.Proofs.HiddenDeclarations
import CodeAtlas.Proofs.HierarchySearch
import CodeAtlas.Proofs.InStep
import CodeAtlas.Proofs.InnermostScope
import CodeAtlas.Proofs.JsonText
import CodeAtlas.Proofs.KeptTables
import CodeAtlas.Proofs.LeavingSteps
import CodeAtlas.Proofs.LinePositions
import CodeAtlas.Proofs.ListedSymbols
import CodeAtlas.Proofs.LocalUses
import CodeAtlas.Proofs.LowerCase
import CodeAtlas.Proofs.LowerParts
import CodeAtlas.Proofs.MaskedDeclarations
import CodeAtlas.Proofs.MaskedReferences
import CodeAtlas.Proofs.MemberOwners
import CodeAtlas.Proofs.Mentions
import CodeAtlas.Proofs.MergedMembers
import CodeAtlas.Proofs.Moments
import CodeAtlas.Proofs.NameMap
import CodeAtlas.Proofs.NameMapHistory
import CodeAtlas.Proofs.Pairing
import CodeAtlas.Proofs.PhraseTree
import CodeAtlas.Proofs.PointLookup
import CodeAtlas.Proofs.PoolAnswers
import CodeAtlas.Proofs.PoolHistory
import CodeAtlas.Proofs.RecordingSteps
import CodeAtlas.Proofs.ReferenceBalance
import CodeAtlas.Proofs.ReferenceScopes
import CodeAtlas.Proofs.ReferenceSteady
import CodeAtlas.Proofs.ReferenceSteps
import CodeAtlas.Proofs.Retyping
import CodeAtlas.Proofs.RootFirst
import CodeAtlas.Proofs.ScopeGrowth
import CodeAtlas.Proofs.SortedSearch
import CodeAtlas.Proofs.StackBalance
import CodeAtlas.Proofs.StoredTables
import CodeAtlas.Proofs.SymbolFamily
import CodeAtlas.Proofs.SymbolShape
import CodeAtlas.Proofs.TokenOrder
import CodeAtlas.Proofs.TypeDistribution
import CodeAtlas.Proofs.TypeExpr
import CodeAtlas.Proofs.TypeGrammar
import CodeAtlas.Proofs.TypeLeaves
import CodeAtlas.Proofs.TypeNames
import CodeAtlas.Proofs.TypeReading
import CodeAtlas.Proofs.TypeText
import CodeAtlas.Proofs.TypeUnion
import CodeAtlas.Proofs.Untyped
import CodeAtlas.Proofs.UsesAround
import CodeAtlas.Proofs.WaitingOutcomes
import CodeAtlas.Proofs.Walk
import CodeAtlas.Proofs.WorkspaceHistory
import CodeAtlas.Reference.Basic
import CodeAtlas.Reference.FlowTypes
import CodeAtlas.Reference.Frame
import CodeAtlas.Reference.Pass
import CodeAtlas.Reference.Pool
import CodeAtlas.Reference.Scope
import CodeAtlas.Settings
import CodeAtlas.Settings.Written
import CodeAtlas.Source.LineMap
import CodeAtlas.Source.Position
import CodeAtlas.Symbol.Basic
import CodeAtlas.Symbol.Kind
import CodeAtlas.Symbol.Modifiers
import CodeAtlas.Symbol.Stored
import CodeAtlas.Symbol.Table
import CodeAtlas.Text.Ascii
import CodeAtlas.Text.Blank
import CodeAtlas.Text.Case
import CodeAtlas.Text.CaseRuns
import CodeAtlas.Text.Cut
import CodeAtlas.Text.Digits
import CodeAtlas.Text.Letter
import CodeAtlas.Toml.Reader
import CodeAtlas.Toml.Scalar
import CodeAtlas.Toml.Value
import CodeAtlas.Tree.Basic
import CodeAtlas.Tree.Builder
import CodeAtlas.Tree.Document
import CodeAtlas.Tree.Kind
import CodeAtlas.Tree.Walk
import CodeAtlas.Tree.Written
import CodeAtlas.TypeText
import CodeAtlas.Workspace
