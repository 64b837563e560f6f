import TommyOS.Lib.TransitionSystem
import TommyOS.Lib.DeviceProgram
import TommyOS.Lib.PackedBitmap
import TommyOS.Lib.RegionAllocator
import TommyOS.MemoryManager.BitmapMemoryManager
import TommyOS.MemoryManager.BitmapMemoryManagerTheorems
import TommyOS.MemoryManager.FrameAllocatorRuns
import TommyOS.Main.BootScanTheorems
import TommyOS.Main.BootAllocations
import TommyOS.Lib.X86Paging
import TommyOS.Paging.Paging
import TommyOS.Paging.PagingTheorems
import TommyOS.Main.BlocksMapped
import TommyOS.Main.BootData
import TommyOS.Lib.WriteLog
import TommyOS.Graphics.Graphics
import TommyOS.Graphics.GraphicsTheorems
import TommyOS.Window.Window
import TommyOS.Layer.Layer
import TommyOS.Window.WindowTheorems
import TommyOS.Layer.LayerTheorems
import TommyOS.Mouse.Mouse
import TommyOS.Main.MouseLayers
import TommyOS.Font.Font
import TommyOS.Console.Console
import TommyOS.Console.Layout
import TommyOS.Console.ConsoleTheorems
import TommyOS.Console.PutStringTheorems
import TommyOS.Console.ConsoleRuns
import TommyOS.Console.ConsoleDrawing
import TommyOS.Queue.Queue
import TommyOS.Queue.QueueTheorems
import TommyOS.Queue.QueueRuns
import TommyOS.Main.MainLoop
import TommyOS.Lib.DepthFirstWalk
import TommyOS.Pci.Pci
import TommyOS.Pci.Topology
import TommyOS.Pci.PciTheorems
import TommyOS.Pci.ScanAllBus
import TommyOS.Pci.Msi
import TommyOS.Pci.MsiTheorems
import TommyOS.BootLoader.KernelLoader
import TommyOS.BootLoader.KernelLoaderTheorems
import TommyOS.Lib.CycleRing
import TommyOS.Usb.Trb
import TommyOS.Usb.Ring
import TommyOS.Usb.RingProtocol
import TommyOS.Usb.EventRing
import TommyOS.Usb.EventRingProtocol
import TommyOS.Usb.Endpoint
import TommyOS.Usb.ArrayMap
import TommyOS.Usb.TransferTrb
import TommyOS.Usb.Device
import TommyOS.Usb.TransferRings
import TommyOS.Usb.Xhci
import TommyOS.Usb.XhciTheorems
import TommyOS.Usb.PortAddressing
import TommyOS.Usb.DeviceInitialization
import TommyOS.Usb.DeviceStages
import TommyOS.Usb.DeviceReports
import TommyOS.Usb.UsbSystem
import TommyOS.Usb.UsbInvariant
import TommyOS.Usb.DriverSteps
import TommyOS.Usb.CommandHandlers
import TommyOS.Usb.TransferHandlers
import TommyOS.Usb.RingUsage
import TommyOS.Usb.ControlTransfers
import TommyOS.Usb.ControlCompletions
import TommyOS.Usb.HandlerCalls
import TommyOS.Usb.EventWaiters
import TommyOS.Usb.ConfigurationParser
import TommyOS.Usb.ParserTermination
import TommyOS.Usb.ParserBounds
import TommyOS.Usb.ParserRefinement
import TommyOS.Lib.Alignment
import TommyOS.Usb.Memory
import TommyOS.Usb.MemoryTheorems
import TommyOS.Usb.FailedCommands
import TommyOS.Lib.InputRun
import TommyOS.Usb.DeviceContexts
import TommyOS.Lib.BumpAllocator
import TommyOS.Usb.PoolUsage
import TommyOS.Usb.PoolAllocations
import TommyOS.Usb.PoolExhaustion
import TommyOS.Lib.Restack
import TommyOS.Layer.LayerStack
import TommyOS.Pci.ScanTermination
import TommyOS.Lib.PointerChain
import TommyOS.Pci.CapabilityWalk
import TommyOS.Usb.ArrayMapRuns
import TommyOS.Usb.FailedAllocations
import TommyOS.Lib.BitField
import TommyOS.Usb.PointerFields
import TommyOS.Pci.MsiRoundTrip
import TommyOS.Graphics.Rectangles
import TommyOS.Lib.TextLines
import TommyOS.Font.Makefont
import TommyOS.Console.BufferInvariant
import TommyOS.Usb.Keyboard
import TommyOS.Usb.HidConfiguration
import TommyOS.Usb.ConfiguredEndpoints
import TommyOS.Usb.EndpointIndices
import TommyOS.Usb.EndpointRuns
import TommyOS.Usb.ControllerStart
import TommyOS.Usb.ControllerProtocol
import TommyOS.Usb.ControllerStartTheorems
import TommyOS.Usb.ControllerRuns
import TommyOS.Lib.X86Descriptors
import TommyOS.Segment.Segment
import TommyOS.Interrupt.Interrupt
import TommyOS.Interrupt.InterruptRoute
import TommyOS.Lib.StateProgram
import TommyOS.Pci.HostController
import TommyOS.Pci.Ports
import TommyOS.Pci.PortsTheorems
import TommyOS.Pci.HostControllerTheorems
import TommyOS.Lib.ByteRecords
import TommyOS.BootLoader.EfiMemoryMap
import TommyOS.BootLoader.UefiMain
import TommyOS.BootLoader.KernelFile
import TommyOS.BootLoader.Handover
import TommyOS.Lib.ControlRegister
import TommyOS.Usb.Port
import TommyOS.Usb.PortTheorems
