import OcreRuntime.Container.Arguments
import OcreRuntime.Container.Collection
import OcreRuntime.Container.Execution
import OcreRuntime.Container.Lifecycle
import OcreRuntime.Container.Progress
import OcreRuntime.Container.Waiting
import OcreRuntime.Context.IdMap
import OcreRuntime.Context.Links
import OcreRuntime.Context.ReleasesOnce
import OcreRuntime.Context.Teardown
import OcreRuntime.Lib.Block
import OcreRuntime.Library.Directories
import OcreRuntime.Library.EventApi
import OcreRuntime.Library.Pairing
import OcreRuntime.Library.Workdir
import OcreRuntime.OcreApi.Accounting
import OcreRuntime.OcreApi.Delivery
import OcreRuntime.OcreApi.EventBytes
import OcreRuntime.OcreApi.EventMemory
import OcreRuntime.OcreApi.GpioAliases
import OcreRuntime.OcreApi.GpioCallbacks
import OcreRuntime.OcreApi.GpioHardware
import OcreRuntime.OcreApi.GpioIsolation
import OcreRuntime.OcreApi.GuestMemory
import OcreRuntime.OcreApi.MessageIds
import OcreRuntime.OcreApi.MessageMemory
import OcreRuntime.OcreApi.Publish
import OcreRuntime.OcreApi.SensorDirectory
import OcreRuntime.OcreApi.StaleEvents
import OcreRuntime.OcreApi.TimerArming
import OcreRuntime.OcreApi.TimerClock
import OcreRuntime.OcreApi.TimerOwners
import OcreRuntime.Platform.LoadFile
import OcreRuntime.Shell.Create
import OcreRuntime.Shell.ImageStore
import OcreRuntime.Shell.Mounts
import OcreRuntime.Wamr.Creation
import OcreRuntime.Wamr.Handshake
import OcreRuntime.Wamr.Instance
import OcreRuntime.Wamr.Kill
