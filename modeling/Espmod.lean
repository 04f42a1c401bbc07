import Espmod.Lib.Text
import Espmod.Lib.Run
import Espmod.Lib.Words
import Espmod.Lib.Ledger
import Espmod.Flash.Layout
import Espmod.Flash.Thread
import Espmod.Flash.Commands
import Espmod.Flash.Store
import Espmod.Flash.Memory
import Espmod.Flash.Refinement
import Espmod.Flash.Driver
import Espmod.Flash.Lockstep
import Espmod.Flash.RoundTrip
import Espmod.Flash.Partition
import Espmod.Flash.RangeTable
import Espmod.Lib.Loop
import Espmod.Flash.BackDoor
import Espmod.Flash.ReadLoop
import Espmod.Flash.Preload
import Espmod.Socket.Send
import Espmod.Socket.Table
import Espmod.Socket.Receive
import Espmod.Socket.Calls
import Espmod.Socket.Effects
import Espmod.Socket.Integrity
import Espmod.Socket.Backlog
import Espmod.Socket.Wakeup
import Espmod.Socket.Threads
import Espmod.Socket.Isolation
import Espmod.Socket.Reading
import Espmod.Socket.Feed
import Espmod.Socket.Requests
import Espmod.Socket.Select
import Espmod.Socket.Datagram
import Espmod.Socket.EndOfStream
import Espmod.Socket.Demux
import Espmod.Lib.Signal
import Espmod.Gpio.Mixed
import Espmod.Gpio.IoMux
import Espmod.Gpio.PadLevel
import Espmod.Gpio.Resolution
import Espmod.Gpio.ReturnPath
import Espmod.Gpio.Driver
import Espmod.Gpio.Sound
import Espmod.Gpio.Config
import Espmod.Gpio.Bulk
import Espmod.Lib.Follower
import Espmod.Gpio.Registers
import Espmod.Gpio.Routes
import Espmod.Gpio.Matrix
import Espmod.Gpio.Incremental
import Espmod.Gpio.Updates
import Espmod.Gpio.DigitalWrite
import Espmod.Gpio.Routing
import Espmod.Gpio.Board
import Espmod.Gpio.PinApi
import Espmod.Pcnt.Unit
import Espmod.Pcnt.Counting
import Espmod.Pcnt.Limits
import Espmod.Pcnt.Channels
import Espmod.Pcnt.Module
import Espmod.Pcnt.Latching
import Espmod.Pcnt.Status
import Espmod.Lib.Debounce
import Espmod.Pcnt.Filter
import Espmod.Pcnt.Driver
import Espmod.Sync.Critical
import Espmod.Sync.Semaphore
import Espmod.Spi.Cursor
import Espmod.Spi.Module
import Espmod.Intr.Controller
import Espmod.Intr.Drivers
import Espmod.Intr.Priority
import Espmod.Intr.Handlers
import Espmod.Adc.Converter
import Espmod.Adc.AnalogRead
import Espmod.Web.Client
import Espmod.Web.Uplink
import Espmod.Web.Refusals
import Espmod.Web.Senders
import Espmod.Web.Downlink
import Espmod.Web.Bench
import Espmod.Lib.Lines
import Espmod.Socket.Recv
import Espmod.Socket.Readline
import Espmod.Web.Lines
import Espmod.Lib.Mqtt
import Espmod.Web.Mqtt
import Espmod.Web.Publish
import Espmod.Web.Tags
import Espmod.Web.Isolation
import Espmod.Spi.Bounds
import Espmod.Spi.Driver
import Espmod.Spi.WireOrder
import Espmod.Spi.ChipSelect
import Espmod.Spi.BitOrder
import Espmod.I2c.Master
import Espmod.I2c.TwoWire
import Espmod.I2c.BlockWrite
import Espmod.I2c.WireReads
import Espmod.I2c.Bus
import Espmod.I2c.Transfers
import Espmod.I2c.Pn532
import Espmod.I2c.Pcf8574
import Espmod.Lib.Fifo
import Espmod.Serial.CharChannel
import Espmod.Serial.Uart
import Espmod.Serial.UartProgress
import Espmod.Ledc.Channel
import Espmod.Ledc.Groups
import Espmod.Ledc.Returns
import Espmod.Ledc.Mirror
import Espmod.Ledc.Timer
import Espmod.Lib.Periods
import Espmod.Ledc.Duty
import Espmod.Pn532.Process
import Espmod.Pn532.Response
import Espmod.Pn532.Framing
import Espmod.Pn532.Parameters
import Espmod.Pn532.Answers
import Espmod.Pn532.Writer
import Espmod.Pn532.Ordering
import Espmod.Pn532.Exchange
import Espmod.Pn532.Access
import Espmod.Mux.Connection
import Espmod.Adc.Validity
import Espmod.Adc.Requests
import Espmod.Gpio.ModeChange
import Espmod.Gpio.Base
import Espmod.Gpio.AltFunction
import Espmod.Gpio.MuxOut
import Espmod.Serial.Baud
import Espmod.Serial.LookaheadReturns
import Espmod.Pn532.WellFormed
import Espmod.Tft.St7735
import Espmod.Lib.Crc
import Espmod.Tft.Crc
import Espmod.Tft.Picture
import Espmod.Lib.FirstMatch
import Espmod.Web.FieldList
import Espmod.Intr.AllocIsr
import Espmod.Intr.AllocRoutes
import Espmod.EspMqtt.Account
import Espmod.EspMqtt.Deliver
import Espmod.EspMqtt.Inbound
import Espmod.EspMqtt.Drain
