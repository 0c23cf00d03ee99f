import S4Sim.Ftl.MappingTables
import S4Sim.Ftl.Accounting
import S4Sim.Ftl.ConfigPages
import S4Sim.Ftl.FreePageSearch
import S4Sim.Ftl.Capacity
import S4Sim.Ftl.UnequalReads
import S4Sim.Ftl.UnequalWrites
import S4Sim.Ftl.Allocations
import S4Sim.Ftl.Striping
import S4Sim.Ftl.SavedTables
import S4Sim.Nvme.NoLostCompletions
import S4Sim.Nvme.HostPolling
import S4Sim.Nvme.TailDoorBells
import S4Sim.Nvme.PrpReference
import S4Sim.Nvme.PrpDescriptor
import S4Sim.Firmware.DoorBellPolling
import S4Sim.Firmware.Shutdown
import S4Sim.Firmware.Outcomes
import S4Sim.Firmware.OneCompletion
import S4Sim.Firmware.BadCommands
import S4Sim.Firmware.ControlCommands
import S4Sim.Firmware.DriverMoves
import S4Sim.Firmware.QueueRules
import S4Sim.Firmware.MissingQueues
import S4Sim.Firmware.DriverIndexes
import S4Sim.Firmware.ArrayBounds
import S4Sim.Firmware.RangeCheck
import S4Sim.Firmware.PrpBounds
import S4Sim.Firmware.MessageQueue
import S4Sim.Firmware.FlushDurability
import S4Sim.Firmware.OperationObjects
import S4Sim.Firmware.FindRequest
import S4Sim.Firmware.QueueCounts
import S4Sim.Firmware.CompletionEntries
import S4Sim.Firmware.BufferOwner
import S4Sim.Firmware.SyncPages
import S4Sim.Firmware.UnequalSyncReads
import S4Sim.Firmware.HostTransfers
import S4Sim.Firmware.ReadPages
import S4Sim.Firmware.BlockDevice
import S4Sim.Firmware.PowerLoss
import S4Sim.Firmware.FairRuns
import S4Sim.Firmware.DoorBells
import S4Sim.Firmware.CircularQueue
import S4Sim.Firmware.DmaOperations
import S4Sim.Firmware.PrintLock
import S4Sim.Isp.Driver
import S4Sim.Isp.Objects
import S4Sim.Isp.Announcements
import S4Sim.Isp.Calls
import S4Sim.Isp.Applets
import S4Sim.Isp.Transfers
import S4Sim.Isp.Arguments
import S4Sim.Isp.PageBuffers
import S4Sim.Isp.RequestCodes
import S4Sim.Isp.Downloads
import S4Sim.HostInterface.Protocol
import S4Sim.HostInterface.Messages
import S4Sim.HostInterface.DmaEvents
import S4Sim.HostInterface.HostThread
import S4Sim.HostInterface.HostProgress
import S4Sim.HostInterface.HostProtocol
import S4Sim.NandCtrl.Controller
import S4Sim.NandCtrl.Stages
import S4Sim.NandCtrl.PageMemory
import S4Sim.NandCtrl.Commands
import S4Sim.NandCtrl.Serving
import S4Sim.NandCtrl.Completions
import S4Sim.NandCtrl.Registers
import S4Sim.NandCtrl.ChannelRuns
import S4Sim.NandCtrl.FiFoCalls
import S4Sim.NandCtrl.ImageRanges
import S4Sim.NandCtrl.SharedMedia
import S4Sim.NandCtrl.PageOrder
import S4Sim.NandCtrl.FlashArray
import S4Sim.NandCtrl.ArrayOperations
import S4Sim.NandCtrl.EventsLeft
import S4Sim.NandCtrl.ArrayProgress
import S4Sim.Stats.EventLog
import S4Sim.Stats.LogFile
import S4Sim.Firmware.FlashPages
