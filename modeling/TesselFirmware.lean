import TesselFirmware.Boot.Image
import TesselFirmware.Bridge.Preempt
import TesselFirmware.Machine.Basic
import TesselFirmware.Memory.Buffer
import TesselFirmware.Node.Listener
import TesselFirmware.Node.Mode
import TesselFirmware.Node.Clock
import TesselFirmware.Node.Exchange
import TesselFirmware.Node.Fifo
import TesselFirmware.Node.Packet
import TesselFirmware.Node.Pending
import TesselFirmware.Node.Report
import TesselFirmware.Node.Request
import TesselFirmware.Port.Bounds
import TesselFirmware.Port.Clock
import TesselFirmware.Port.Completion
import TesselFirmware.Port.Error
import TesselFirmware.Port.Extint
import TesselFirmware.Port.Packets
import TesselFirmware.Port.Page
import TesselFirmware.Port.Uart
import TesselFirmware.Port.Window
import TesselFirmware.Spid.Descriptors
import TesselFirmware.System.Serving
import TesselFirmware.Timer.Timeout
import TesselFirmware.Usb.Exclusion
import TesselFirmware.Usb.Pipe
import TesselFirmware.Usb.Script
import TesselFirmware.Usb.Serial
import TesselFirmware.Usb.Switch
import TesselFirmware.Usbexecd.Batch
import TesselFirmware.Usbexecd.Child
import TesselFirmware.Usbexecd.Reaper
import TesselFirmware.Usbexecd.Refusal
import TesselFirmware.Usbexecd.Registration
import TesselFirmware.Usbexecd.Writable
