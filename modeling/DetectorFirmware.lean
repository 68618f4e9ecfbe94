import DetectorFirmware.Library.EventLog
import DetectorFirmware.Library.EraseAheadRing
import DetectorFirmware.Library.ReadLog
import DetectorFirmware.Model.Protocol
import DetectorFirmware.Proofs.FrameScan
import DetectorFirmware.Proofs.FrameRoundTrip
import DetectorFirmware.Proofs.FlashWrite
import DetectorFirmware.Proofs.RecordLog
import DetectorFirmware.Proofs.Append
import DetectorFirmware.Proofs.Retention
import DetectorFirmware.Proofs.Wear
import DetectorFirmware.Proofs.PowerCut
import DetectorFirmware.Proofs.Response
import DetectorFirmware.Proofs.History
import DetectorFirmware.Proofs.ConfigPage
import DetectorFirmware.Proofs.ConfigCut
import DetectorFirmware.Proofs.Calendar
import DetectorFirmware.Proofs.Isolation
import DetectorFirmware.Library.Footprint
import DetectorFirmware.Proofs.Regions
import DetectorFirmware.Proofs.Boot
import DetectorFirmware.Proofs.BootCut
import DetectorFirmware.Library.Gregorian
import DetectorFirmware.Proofs.DateLoops
import DetectorFirmware.Proofs.SetClock
import DetectorFirmware.Proofs.ClockReading
import DetectorFirmware.Proofs.Weekday
import DetectorFirmware.Proofs.SensorFailure
import DetectorFirmware.Library.RingWindow
import DetectorFirmware.Model.Receive
import DetectorFirmware.Model.HostLink
import DetectorFirmware.Proofs.HandOver
import DetectorFirmware.Library.SevenSegment
import DetectorFirmware.Model.Lcd
import DetectorFirmware.Library.SerialLine
import DetectorFirmware.Proofs.LcdFields
import DetectorFirmware.Proofs.LcdSerial
import DetectorFirmware.Proofs.LcdTiming
import DetectorFirmware.Library.Observer
import DetectorFirmware.Model.FlashCtlr
import DetectorFirmware.Proofs.Locking
import DetectorFirmware.Library.DownCounter
import DetectorFirmware.Model.Delay
import DetectorFirmware.Proofs.DelayElapsed
import DetectorFirmware.Library.WhileLoop
import DetectorFirmware.Model.Console
import DetectorFirmware.Proofs.RecordFill
import DetectorFirmware.Library.BoundedQueue
import DetectorFirmware.Model.Ring
import DetectorFirmware.Proofs.RingQueue
import DetectorFirmware.Proofs.RingBlocks
import DetectorFirmware.Model.RingSteps
import DetectorFirmware.Proofs.RingInterleaving
import DetectorFirmware.Proofs.RingCalls
import DetectorFirmware.Library.AtomicObject
import DetectorFirmware.Proofs.RingLinearizable
import DetectorFirmware.Model.Button
import DetectorFirmware.Library.Gestures
import DetectorFirmware.Proofs.ButtonPresses
import DetectorFirmware.Proofs.ButtonScan
import DetectorFirmware.Proofs.HostSession
import DetectorFirmware.Library.Playback
import DetectorFirmware.Model.Led
import DetectorFirmware.Proofs.LedPlay
import DetectorFirmware.Proofs.LedList
import DetectorFirmware.Proofs.LedPattern
import DetectorFirmware.Proofs.LedShow
import DetectorFirmware.Proofs.LedTime
import DetectorFirmware.Proofs.ClockService
