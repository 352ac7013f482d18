import ChangeTracking.Main
import ChangeTracking.Block.Document
import ChangeTracking.Observer
import ChangeTracking.Proofs.LsnOrder
import ChangeTracking.Proofs.LsnText
import ChangeTracking.Proofs.Marking
import ChangeTracking.Proofs.Growth
import ChangeTracking.Proofs.Run
import ChangeTracking.Proofs.Coverage
import ChangeTracking.Proofs.Lookup
import ChangeTracking.Proofs.Names
import ChangeTracking.Proofs.Scanning
import ChangeTracking.Proofs.Walks
import ChangeTracking.Proofs.Listings
import ChangeTracking.Proofs.Reports
import ChangeTracking.Proofs.Words
import ChangeTracking.Proofs.Images
import ChangeTracking.Proofs.Checksums
import ChangeTracking.Proofs.Damage
import ChangeTracking.Proofs.MapFiles
import ChangeTracking.Proofs.Restart
import ChangeTracking.Proofs.Replacement
import ChangeTracking.Proofs.ScanSessions
import ChangeTracking.Proofs.Epochs
import ChangeTracking.Proofs.BulkMarks
import ChangeTracking.Proofs.Visits
import ChangeTracking.Proofs.RelativePaths
import ChangeTracking.Proofs.Layouts
import ChangeTracking.Proofs.SideFiles
import ChangeTracking.Proofs.Copies
import ChangeTracking.Proofs.TreeGrowth
import ChangeTracking.Proofs.Interleaving
import ChangeTracking.Proofs.Validity
import ChangeTracking.Proofs.OfflineQueries
import ChangeTracking.Proofs.Bitmaps
import ChangeTracking.Proofs.ExactScans
import ChangeTracking.Proofs.Idleness
import ChangeTracking.Proofs.DamagedTrees
import ChangeTracking.Proofs.WalkLoop
import ChangeTracking.Proofs.ByteOrder
import ChangeTracking.Proofs.LocalDamage
import ChangeTracking.Proofs.LinkDepth
import ChangeTracking.Proofs.MeantDirectories
import ChangeTracking.Proofs.Passes
import ChangeTracking.Proofs.Startup
import ChangeTracking.Proofs.Components
import ChangeTracking.Proofs.Spellings
import ChangeTracking.Proofs.FileNames
import ChangeTracking.Proofs.SegmentPaths
import ChangeTracking.Proofs.NewFiles
import ChangeTracking.Proofs.Saving
import ChangeTracking.Proofs.Answers
import ChangeTracking.Proofs.CanonicalBitmaps
import ChangeTracking.Proofs.Numerals
import ChangeTracking.Proofs.Documents
import ChangeTracking.Proofs.PositionTexts
import ChangeTracking.Proofs.RenderedPagemaps
import ChangeTracking.Proofs.VersionDirectories
import ChangeTracking.Proofs.Hashes
import ChangeTracking.Proofs.Geometry
import ChangeTracking.Proofs.Settings
import ChangeTracking.Proofs.Delivery
