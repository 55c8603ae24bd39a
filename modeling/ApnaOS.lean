import ApnaOS.Lib.Transition
import ApnaOS.Lib.Table
import ApnaOS.Keyboard.StringOps
import ApnaOS.FileSystem.Disk
import ApnaOS.FileSystem.Tables
import ApnaOS.FileSystem.Consistency
import ApnaOS.FileSystem.Directory
import ApnaOS.FileSystem.Refinement
import ApnaOS.FileSystem.Names
import ApnaOS.Lib.FirstFit
import ApnaOS.Memory.Allocation
import ApnaOS.Memory.Isolation
import ApnaOS.Memory.Bounds
import ApnaOS.Memory.Conservation
import ApnaOS.Lib.RedBlack
import ApnaOS.Lib.Separation
import ApnaOS.Process.RbTree
import ApnaOS.Process.RbShape
import ApnaOS.Process.RbInsert
import ApnaOS.Process.RbErase
import ApnaOS.Lib.StableQueue
import ApnaOS.Process.CfsQueue
import ApnaOS.Lib.Chain
import ApnaOS.Process.Kernel
import ApnaOS.Process.Machine
import ApnaOS.Process.Processes
import ApnaOS.Process.Pcb
import ApnaOS.Process.Linked
import ApnaOS.Process.Scheduling
import ApnaOS.Process.Simulation
import ApnaOS.Process.Orderly
import ApnaOS.Process.Scheduler
import ApnaOS.Process.Waiting
import ApnaOS.Process.Reaping
import ApnaOS.Process.Parents
import ApnaOS.Process.Twins
import ApnaOS.Process.StaleMemory
import ApnaOS.Memory.Completeness
import ApnaOS.FileSystem.Lengths
import ApnaOS.Lib.Seniority
import ApnaOS.Process.ScheduleCalls
import ApnaOS.Process.DispatchOrder
import ApnaOS.Process.Stacks
import ApnaOS.Process.Drift
import ApnaOS.Process.Resuming
import ApnaOS.Process.Leak
import ApnaOS.Keyboard.Handler
import ApnaOS.Keyboard.LineEditor
import ApnaOS.Keyboard.Delivery
import ApnaOS.Memory.Sizes
import ApnaOS.Process.LinkedQueues
import ApnaOS.Process.Creation
import ApnaOS.Process.AllOrNothing
import ApnaOS.Process.ChildStack
import ApnaOS.Process.StackBases
import ApnaOS.Process.WaitScan
import ApnaOS.FileSystem.Chunking
import ApnaOS.FileSystem.Exhaustion
import ApnaOS.FileSystem.Rewriting
import ApnaOS.FileSystem.Undoing
import ApnaOS.Keyboard.StringWrites
import ApnaOS.Shell.Commands
import ApnaOS.Shell.ReadBranch
import ApnaOS.FileSystem.LongNames
import ApnaOS.Lib.RedBlackDepth
import ApnaOS.Process.CfsDepth
import ApnaOS.Keyboard.Lines
import ApnaOS.Keyboard.Modifiers
import ApnaOS.Screen.Canvas
import ApnaOS.Screen.Echo
import ApnaOS.Process.Shells
import ApnaOS.Keyboard.CStrings
import ApnaOS.Keyboard.Tokens
import ApnaOS.Shell.Numbers
import ApnaOS.Shell.CliLoop
import ApnaOS.Shell.Grammar
import ApnaOS.Shell.Spelling
import ApnaOS.FileSystem.Catalog
import ApnaOS.Shell.Session
import ApnaOS.Shell.Requests
import ApnaOS.FileSystem.Independence
import ApnaOS.Shell.Terminal
import ApnaOS.Memory.Contents
import ApnaOS.Process.HeapUse
import ApnaOS.Lib.FixedDigits
import ApnaOS.Serial.DebugLog
import ApnaOS.Shell.UnsignedNumbers
import ApnaOS.Interrupts.Descriptors
import ApnaOS.Interrupts.Routing
