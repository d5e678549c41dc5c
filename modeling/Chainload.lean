import Chainload.Chain.Step
import Chainload.DebugConsole
import Chainload.Elf.Draft
import Chainload.Elf.Footprint
import Chainload.Multiboot.Header
import Chainload.Multiboot.Report
import Chainload.Proofs.FileContents
import Chainload.Proofs.Inspection
import Chainload.Proofs.LittleEndian
import Chainload.Proofs.Runs
import Chainload.Proofs.Window
import Chainload.Screen.Cursor
import Chainload.Screen.Page
import Chainload.Proofs.LoadedMemory
import Chainload.Proofs.Placing
import Chainload.Proofs.RelatedLoads
import Chainload.Proofs.Strictness
import Chainload.Proofs.Requirements
import Chainload.Proofs.ViewedLoad
import Chainload.Proofs.Staging
import Chainload.Proofs.StagedFailure
import Chainload.Proofs.Areas
import Chainload.Proofs.PlacedStages
import Chainload.Proofs.Confinement
import Chainload.Proofs.TwoStages
import Chainload.Proofs.Handover
import Chainload.Proofs.Recording
import Chainload.Proofs.Boots
import Chainload.Proofs.SegmentWrites
import Chainload.Proofs.FailedLoads
import Chainload.Proofs.DraftedFile
import Chainload.Proofs.DraftedLoad
import Chainload.Proofs.MapRecords
import Chainload.Proofs.LayoutCheck
import Chainload.Proofs.Scrolling
import Chainload.Proofs.PlainMemory
import Chainload.Proofs.Jumping
import Chainload.Proofs.FirstFailure
import Chainload.Proofs.Lookalikes
import Chainload.Proofs.Returning
import Chainload.Proofs.TableOrder
import Chainload.Proofs.WindowAccess
import Chainload.Proofs.AvailableMemory
import Chainload.Proofs.ShownTables
import Chainload.Proofs.DraftedReading
import Chainload.Proofs.HighestAddress
import Chainload.Elf.Assembly
import Chainload.Proofs.Assembling
import Chainload.Proofs.RefusedModules
import Chainload.Proofs.InfoLayout
import Chainload.Proofs.TableCalls
import Chainload.Proofs.TextWriting
import Chainload.Proofs.AlarmLines
import Chainload.Proofs.MapCalls
