import Chario.Constants
import Chario.Library.Transition
import Chario.Library.Ring
import Chario.Library.Prp
import Chario.Nvme.Prps
import Chario.Nvme.PrpLists
import Chario.Nvme.PrpMemory
import Chario.Nvme.Submit
import Chario.Nvme.Split
import Chario.Nvme.Mapping
import Chario.Nvme.Format
import Chario.Nvme.Controller
import Chario.Library.Copy
import Chario.Device.File
import Chario.Device.Status
import Chario.Device.Format
import Chario.Device.Moves
import Chario.Device.Flat
import Chario.Queue.Command
import Chario.Queue.CompletionQueue
import Chario.Queue.SubmissionRing
import Chario.Queue.WaitProtocol
import Chario.Queue.WakeUps
import Chario.Queue.Lifetime
import Chario.Queue.Tags
import Chario.Queue.Dispatch
import Chario.Queue.Shutdown
import Chario.Library.Tiling
import Chario.Nvme.Tiles
import Chario.Nvme.Unaligned
import Chario.Nvme.PhysPrps
import Chario.Nvme.Scatterlist
import Chario.Library.Custody
import Chario.Nvme.Resources
import Chario.Device.Chunks
import Chario.Device.PhysIo
import Chario.Libchario.Tasks
import Chario.Driver.CurrentDev
import Chario.Libchario.Turns
import Chario.Library.Gather
import Chario.Nvme.Routes
import Chario.Device.ChunkRoutes
import Chario.Device.Misaligned
import Chario.Libchario.Bookkeeping
import Chario.Libchario.Calls
import Chario.Libchario.Replies
import Chario.Nvme.Machine
import Chario.Nvme.PrpBounds
import Chario.Nvme.MachineRefines
import Chario.Nvme.MapPages
import Chario.Driver.AllocQueue
import Chario.Driver.Start
import Chario.Driver.Slots
import Chario.Driver.PageSize
import Chario.Driver.Online
import Chario.Driver.Kthread
import Chario.Driver.QueueViews
import Chario.Library.Links
import Chario.Libchario.ListHead
import Chario.Libchario.ListRuns
import Chario.Libchario.Linked
import Chario.Queue.Deletion
import Chario.Queue.DeletionLedger
import Chario.Queue.DeletionOrder
import Chario.Queue.DeletionTimeout
import Chario.Nvme.Plain
import Chario.Nvme.BlockRequest
import Chario.Nvme.RequestRuns
import Chario.Library.Bytes
import Chario.Scsi.Cdb
import Chario.Scsi.Sense
import Chario.Scsi.Io
import Chario.Scsi.Transfer
import Chario.Scsi.Unmap
import Chario.Scsi.ReportLuns
