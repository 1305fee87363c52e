import CLibrary.Library.Runs
import CLibrary.Library.Monitor
import CLibrary.Library.Circular
import CLibrary.Library.Unsigned
import CLibrary.Library.Probing
import CLibrary.Library.Crowding
import CLibrary.Library.Deadlines
import CLibrary.Library.Chain
import CLibrary.Library.ShiftRegister
import CLibrary.Library.Linked
import CLibrary.Library.StoreBuffers
import CLibrary.Library.Calendar
import CLibrary.SpinLock.Basic
import CLibrary.SpinLock.Delay
import CLibrary.SpinLock.System
import CLibrary.SpinLock.Runs
import CLibrary.RingBuffer.Basic
import CLibrary.RingBuffer.Fifo
import CLibrary.RingBuffer.Shared
import CLibrary.RingBuffer.Bulk
import CLibrary.RingBuffer.Linear
import CLibrary.RingBuffer.Wakeup
import CLibrary.RingBuffer.Threads
import CLibrary.RingBuffer.TryData
import CLibrary.RingBuffer.TryLock
import CLibrary.RingBuffer.Modes
import CLibrary.RingBuffer.Parts
import CLibrary.LinkedList.Basic
import CLibrary.LinkedList.Sequences
import CLibrary.LinkedList.Refinement
import CLibrary.LinkedList.Iteration
import CLibrary.TailQueue.Basic
import CLibrary.TailQueue.Refinement
import CLibrary.TailQueue.Runs
import CLibrary.HashMap.Basic
import CLibrary.HashMap.Refinement
import CLibrary.HashMap.Doubling
import CLibrary.HashMap.Slots
import CLibrary.HashMap.Length
import CLibrary.HashMap.Seats
import CLibrary.HashMap.OutOfMemory
import CLibrary.HashMap.Growth
import CLibrary.HashMap.Rehash
import CLibrary.HashMap.Crc
import CLibrary.Timer.Basic
import CLibrary.Timer.Queue
import CLibrary.Timer.Order
import CLibrary.Timer.Wheel
import CLibrary.Timer.Exact
import CLibrary.Timer.Early
import CLibrary.Timer.Rounds
import CLibrary.Timer.Budget
import CLibrary.Timer.CatchUp
import CLibrary.Timer.Ledger
import CLibrary.Timer.Agreement
import CLibrary.Timer.Arithmetic
import CLibrary.Timer.Elements
import CLibrary.Timer.Memory
import CLibrary.Timer.WheelMemory
import CLibrary.Timer.QueueMemory
import CLibrary.Timer.MemoryRuns
import CLibrary.Packet.Basic
import CLibrary.Packet.Decode
import CLibrary.Packet.Headers
import CLibrary.Packet.Options
import CLibrary.Packet.Calls
import CLibrary.Packet.Termination
import CLibrary.Packet.Reads
import CLibrary.Packet.Window
import CLibrary.Packet.Fill
import CLibrary.Packet.Layers
import CLibrary.Packet.Fragments
import CLibrary.Packet.Yields
import CLibrary.Packet.Padding
import CLibrary.Packet.Cutoff
import CLibrary.Packet.Datagram
import CLibrary.Packet.OptionRounds
import CLibrary.Packet.OptionArea
import CLibrary.Packet.OptionList
import CLibrary.Packet.Create
import CLibrary.Packet.Transport
import CLibrary.Packet.Payload
import CLibrary.Packet.Addresses
import CLibrary.Packet.Compare
import CLibrary.Packet.Stats
import CLibrary.Packet.Capture
import CLibrary.Packet.Encode
import CLibrary.Packet.RoundTrip
import CLibrary.Log.Basic
import CLibrary.Log.Journal
import CLibrary.Log.Days
