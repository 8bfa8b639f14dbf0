import HamsOpen.Ambe.ExpLog
import HamsOpen.Ambe.FrameAnalyzer
import HamsOpen.Ambe.Isqrt
import HamsOpen.Ambe.StreamEncoder
import HamsOpen.Ambe.Wire
import HamsOpen.Ascii.Tokenizer
import HamsOpen.Civ.Ptt
import HamsOpen.DigitalModes.DStar
import HamsOpen.DigitalModes.Psk31
import HamsOpen.DigitalModes.Rtty
import HamsOpen.DigitalModes.WsprDecode
import HamsOpen.Flex.Text
import HamsOpen.Hamlib.Attest
import HamsOpen.Hamlib.Load
import HamsOpen.Hpsdr.Keyed
import HamsOpen.Kenwood.LanFraming
import HamsOpen.Kenwood.LanSession
import HamsOpen.Lib.Decimal
import HamsOpen.Lib.Executor
import HamsOpen.Lib.Find
import HamsOpen.Lib.History
import HamsOpen.Lib.Loop
import HamsOpen.Lib.Machine
import HamsOpen.Lib.Overwrite
import HamsOpen.Lib.Runs
import HamsOpen.Lib.Tiles
import HamsOpen.Lib.Utf8
import HamsOpen.Links.Slots
import HamsOpen.Modbus.Addresses
import HamsOpen.Modbus.Credit
import HamsOpen.Modbus.Errors
import HamsOpen.Net.Length
import HamsOpen.Net.Sessions
import HamsOpen.Perseus.Firmware
import HamsOpen.Perseus.Session
import HamsOpen.Radioctld.Answer
import HamsOpen.Radioctld.Client
import HamsOpen.Radioctld.Levels
import HamsOpen.Radioctld.Owner
import HamsOpen.Radioctld.SetMode
import HamsOpen.Radioctld.Update
import HamsOpen.Radioctld.Upload
import HamsOpen.Radiod.Channel
import HamsOpen.Radiod.Command
import HamsOpen.Radiod.Tlv
import HamsOpen.RelayBroker.Broker
import HamsOpen.RelayBroker.RateLimit
import HamsOpen.Rig.Coverage
import HamsOpen.Rig.Frames
import HamsOpen.Rig.Numbers
import HamsOpen.Rig.Polling
import HamsOpen.Rig.Reopen
import HamsOpen.Rig.Replies
import HamsOpen.Rotator.Travel
import HamsOpen.Rsp.Encode
import HamsOpen.Runner.Ended
import HamsOpen.Runner.EventPages
import HamsOpen.Runner.Prompt
import HamsOpen.Serial.Sessions
import HamsOpen.Splitter.Ts2000
import HamsOpen.Station.AllOff
import HamsOpen.Station.AllOffReport
import HamsOpen.Station.Debouncer
import HamsOpen.Station.HomeAssistant
import HamsOpen.Station.HttpRelay
import HamsOpen.Station.Lifecycle
import HamsOpen.Station.MinOff
import HamsOpen.Station.Needs
import HamsOpen.Station.PowerMeter
import HamsOpen.Station.PowerOff
import HamsOpen.Station.Pulse
import HamsOpen.Station.RecordStore
import HamsOpen.Station.Selector
import HamsOpen.Station.Truth
import HamsOpen.StationIo.HostLogs
import HamsOpen.StationIo.Loader
import HamsOpen.StationIo.OffTime
import HamsOpen.StationIo.Outputs
import HamsOpen.StationIo.Reports
import HamsOpen.StationIo.Runs
import HamsOpen.TenTec.Rx320
import HamsOpen.Usb.Link
import HamsOpen.UsbHub.Power
import HamsOpen.Ws.Decoder
import HamsOpen.YaesuLegacy.Frequency
import Mathlib.Data.List.Basic
import Mathlib.Data.List.Perm.Basic
import Mathlib.Data.List.Sort
import Mathlib.Logic.Relation
import HamsOpen.Ambe.VoiceFrame
