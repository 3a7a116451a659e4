import FencePreview.Main
import FencePreview.Proofs.Layout
import FencePreview.Proofs.FenceLines
import FencePreview.Proofs.PanelLines
import FencePreview.Proofs.NestedAttributes
import FencePreview.Proofs.NestedBlocks
import FencePreview.Proofs.Jobs
import FencePreview.Proofs.Walk
import FencePreview.Proofs.Publication
import FencePreview.Proofs.Rendering
import FencePreview.Proofs.TidyLayout
import FencePreview.Proofs.WellFormedDocuments
import FencePreview.Proofs.Places
import FencePreview.Proofs.FileChanges
import FencePreview.Proofs.StoredImages
import FencePreview.Proofs.FailedRenders
import FencePreview.Proofs.SiteCopies
import FencePreview.Proofs.CacheSoundness
import FencePreview.Proofs.CodeBlocks
import FencePreview.Proofs.RepeatedScans
import FencePreview.Proofs.SecondPass
import FencePreview.Proofs.CompilerCalls
import FencePreview.Proofs.MarkdownPaths
import FencePreview.Proofs.RenderPlaces
import FencePreview.Proofs.CompilerVerdicts
import FencePreview.Proofs.DocumentVerdicts
import FencePreview.Proofs.IsolatedDocuments
import FencePreview.Proofs.RepeatedRenders
import FencePreview.Proofs.FenceEndings
import FencePreview.Proofs.SearchPaths
import FencePreview.Proofs.DocumentListing
import FencePreview.Proofs.KeptFiles
import FencePreview.Proofs.MirroredTree
import FencePreview.Proofs.BuiltDocuments
import FencePreview.Proofs.RepeatedBuilds
import FencePreview.Proofs.BareOpenings
import FencePreview.Proofs.OverriddenSettings
import FencePreview.Proofs.RenderChanges
import FencePreview.Proofs.Threads
import FencePreview.Proofs.Interference
import FencePreview.Proofs.MadeDirectories
import FencePreview.Proofs.SharedDirectories
import FencePreview.Proofs.DirectoryTurns
import FencePreview.Proofs.FileTurns
import FencePreview.Proofs.RenderParts
import FencePreview.Proofs.ConcurrentRenders
import FencePreview.Proofs.OpeningGrammar
import FencePreview.Proofs.ExampleTags
import FencePreview.Proofs.PreviewKeys
import FencePreview.Proofs.PlainDocuments
import FencePreview.Proofs.JoinedDocuments
import FencePreview.Proofs.AddressPaths
import FencePreview.Proofs.PanelItems
import FencePreview.Proofs.ExpandedValues
import FencePreview.Proofs.LoadedConfigurations
import FencePreview.Proofs.SpelledOptions
import FencePreview.Proofs.ImportLines
import FencePreview.Proofs.MarkupReading
import FencePreview.Proofs.FinalNewlines
import FencePreview.Proofs.NearestConfiguration
