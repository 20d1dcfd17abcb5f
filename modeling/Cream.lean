import Cream.Library.Transition
import Cream.Analysis.SlotOperations
import Cream.Analysis.SlotReload
import Cream.Analysis.SlotExclusivity
import Cream.Analysis.StopReleases
import Cream.Analysis.Coherence
import Cream.Analysis.ReloadInsertion
import Cream.Analysis.UsbOwnership
import Cream.Analysis.UpgradeKeepsInstances
import Cream.Library.Pattern
import Cream.Library.Ini
import Cream.Model.BaseKlippyService
import Cream.Model.ConfigFile
import Cream.Analysis.FailedStart
import Cream.Analysis.PortLock
import Cream.Library.PercentCoding
import Cream.Analysis.ProxyBody
import Cream.Analysis.ProxyTarget
import Cream.Library.HttpMessage
import Cream.Model.Response
import Cream.Analysis.ProxyResponse
import Cream.Model.WebSocketProxy
import Cream.Analysis.ProxyClosing
import Cream.Library.WebSocketFraming
import Cream.Model.WebSocketFrame
import Cream.Analysis.ProxyForwarding
import Cream.Library.ConfigParser
import Cream.Model.Confighelper
import Cream.Model.BaseMoonrakerService
import Cream.Analysis.MoonrakerConf
import Cream.Analysis.MoonrakerPorts
import Cream.Analysis.PythonStartUp
import Cream.Analysis.BulkDisconnect
import Cream.Library.FailFast
import Cream.Model.EventBus
import Cream.Analysis.EventDelivery
import Cream.Library.Quoting
import Cream.Model.FfmpegCmd
import Cream.Analysis.FfmpegCommands
import Cream.Analysis.RenderRestores
import Cream.Analysis.NativeHandles
import Cream.Model.InstanceStore
import Cream.Analysis.StoreRefinement
import Cream.Analysis.DeletionComplete
import Cream.Model.AppState
import Cream.Analysis.UiConvergence
import Cream.Analysis.PrinterCfg
import Cream.Library.FileTree
import Cream.Model.InstanceFilesProvider
import Cream.Analysis.DocumentContainment
import Cream.Analysis.DocumentCreation
import Cream.Analysis.Nv21Layout
import Cream.Analysis.TransformChain
import Cream.Analysis.SerialLossless
import Cream.Analysis.AcceptLoop
import Cream.Analysis.StreamFraming
import Cream.Analysis.TimelapseTiming
import Cream.Analysis.McuPorts
import Cream.Analysis.EventHierarchy
import Cream.Analysis.ToneBuffer
import Cream.Analysis.TimelapseFrames
import Cream.Analysis.PrinterCfgAutosave
import Cream.Library.Vlq
import Cream.Model.Msgblock
import Cream.Model.Msgproto
import Cream.Library.Deframing
import Cream.Model.Command
import Cream.Analysis.MessageInts
import Cream.Analysis.BlockChecksum
import Cream.Analysis.BlockFraming
import Cream.Analysis.MessageCommands
import Cream.Library.GoBackN
import Cream.Model.SerialQueue
import Cream.Analysis.SerialAccounts
import Cream.Analysis.SerialDelivery
