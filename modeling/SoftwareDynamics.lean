import SoftwareDynamics.Interaction.Transpose
import SoftwareDynamics.Interaction.Block
import SoftwareDynamics.Interaction.Bounds
import SoftwareDynamics.Interaction.Layout
import SoftwareDynamics.Interaction.MakeMatrix
import SoftwareDynamics.Interaction.Main
import SoftwareDynamics.Network.Spinlock
import SoftwareDynamics.Network.FloorLg
import SoftwareDynamics.Network.History
import SoftwareDynamics.Network.Locking
import SoftwareDynamics.Network.Completion
import SoftwareDynamics.Network.Session
import SoftwareDynamics.Network.RoundTrip
import SoftwareDynamics.Network.Framing
import SoftwareDynamics.Network.Lengths
import SoftwareDynamics.Network.PortableLog
import SoftwareDynamics.Network.PortableSend
import SoftwareDynamics.Network.SendMemory
import SoftwareDynamics.Network.Connecting
import SoftwareDynamics.Network.RequestIds
import SoftwareDynamics.Network.Listener
import SoftwareDynamics.Network.Client
import SoftwareDynamics.Network.Entry
import SoftwareDynamics.Network.Receiver
import SoftwareDynamics.Network.WriteBody
import SoftwareDynamics.Network.WriteCodec
import SoftwareDynamics.Network.Pacing
import SoftwareDynamics.Network.Isolation
import SoftwareDynamics.Network.LogFile
import SoftwareDynamics.Network.BothLogs
import SoftwareDynamics.Network.DumpJson
import SoftwareDynamics.Network.DumpNumbers
import SoftwareDynamics.Network.Addresses
import SoftwareDynamics.Network.HexDump
import SoftwareDynamics.Network.ServerArgs
import SoftwareDynamics.Network.ClientArgs
import SoftwareDynamics.Memory.LongList
import SoftwareDynamics.Memory.InBuffer
import SoftwareDynamics.Memory.Chained
import SoftwareDynamics.Memory.LinkedList
import SoftwareDynamics.Memory.Scrambled
import SoftwareDynamics.Memory.CacheSizes
import SoftwareDynamics.Memory.Timings
import SoftwareDynamics.Memory.Assoc
import SoftwareDynamics.Network.DumpedLogs
