import DemandPaging.Main
import DemandPaging.Session
import DemandPaging.TicketLock
import DemandPaging.Image.MemoryImage
import DemandPaging.Kernel.Content
import DemandPaging.Kernel.System
import DemandPaging.Text.ByteRuns
import DemandPaging.Proofs.Consistency
import DemandPaging.Proofs.Transparency
import DemandPaging.Proofs.Guards
import DemandPaging.Proofs.WakeUps
import DemandPaging.Proofs.ReadOnly
import DemandPaging.Proofs.Failures
import DemandPaging.Proofs.Exit
import DemandPaging.Proofs.Teardown
import DemandPaging.Proofs.Recovery
import DemandPaging.Proofs.Assertions
import DemandPaging.Proofs.Creation
import DemandPaging.Proofs.Readback
import DemandPaging.Proofs.Fifo
import DemandPaging.Proofs.EagerLoading
import DemandPaging.Proofs.Balance
import DemandPaging.Proofs.Relay
import DemandPaging.Proofs.SecondChance
import DemandPaging.Proofs.SavedCopies
import DemandPaging.Proofs.MemoryAccess
import DemandPaging.Proofs.Identities
import DemandPaging.Proofs.ExactCheck
import DemandPaging.Proofs.FullSwap
import DemandPaging.Proofs.TextReads
import DemandPaging.Proofs.WakeOrder
import DemandPaging.Proofs.LoadedImage
import DemandPaging.Proofs.Acceptance
import DemandPaging.Proofs.PageLoads
import DemandPaging.Proofs.ArgumentLimit
import DemandPaging.Proofs.FrameNumbers
import DemandPaging.Proofs.AddressSplitting
import DemandPaging.Proofs.SwapClients
import DemandPaging.Proofs.PageTableLaws
import DemandPaging.Proofs.Simulation
import DemandPaging.Proofs.EntryEncoding
import DemandPaging.Proofs.FreeListClients
