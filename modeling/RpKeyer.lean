import RpKeyer.KeyLine
import RpKeyer.Loop
import RpKeyer.UsbResync
import RpKeyer.UsbChannel
import RpKeyer.MenuRun
import RpKeyer.Redraw
import RpKeyer.Storage
import RpKeyer.Settings
import RpKeyer.SaveWindow
import RpKeyer.Debounce
import RpKeyer.Buttons
import RpKeyer.Sidetone
import RpKeyer.BuzzerRun
import RpKeyer.Uf2
import RpKeyer.MidiInterrupt
import RpKeyer.UsbIndependence
import RpKeyer.Decoder
import RpKeyer.Snapshots
import RpKeyer.Firmware
import RpKeyer.Paddles
import RpKeyer.PowerCycle
import RpKeyer.Liveness
import RpKeyer.Tone
import RpKeyer.MenuReach
import RpKeyer.Panel
import RpKeyer.Uptake
import RpKeyer.Packets
import RpKeyer.CdcSerialState
import RpKeyer.Descriptors
import RpKeyer.SerialNumber
import RpKeyer.Monitor
import RpKeyer.DisplayFaults
