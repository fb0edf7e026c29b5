import JavaMachine.Archive.Builder
import JavaMachine.Archive.Directory
import JavaMachine.Archive.Inflate
import JavaMachine.Assembler.Code
import JavaMachine.Assembler.Pool
import JavaMachine.Assembler.Source
import JavaMachine.Bytes.BigEndian
import JavaMachine.Bytes.Cursor
import JavaMachine.ClassFile.Attribute
import JavaMachine.ClassFile.Basic
import JavaMachine.ClassFile.Constant
import JavaMachine.ClassFile.Decoder
import JavaMachine.ClassFile.Fault
import JavaMachine.ClassFile.Flags
import JavaMachine.ClassFile.Reader
import JavaMachine.ClassFile.Writer
import JavaMachine.ClassPath.Entry
import JavaMachine.ClassPath.Locate
import JavaMachine.ClassPath.Manifest
import JavaMachine.ClassPath.Storage
import JavaMachine.Code.Cursor
import JavaMachine.Code.Disassembly
import JavaMachine.Code.Opcode
import JavaMachine.Decimal.Shortest
import JavaMachine.Descriptor
import JavaMachine.Disk.Basic
import JavaMachine.Inspect.ClassFile
import JavaMachine.Inspect.Failure
import JavaMachine.Inspect.Launcher
import JavaMachine.Inspect.Machine
import JavaMachine.Inspect.Report
import JavaMachine.Inspect.Trace
import JavaMachine.Launcher.CommandLine
import JavaMachine.Launcher.Listed
import JavaMachine.Launcher.Run
import JavaMachine.Launcher.Settings
import JavaMachine.Library.Basic
import JavaMachine.Library.Catalog
import JavaMachine.Library.Console
import JavaMachine.Library.Files
import JavaMachine.Library.Language
import JavaMachine.Library.Support
import JavaMachine.Library.Threads
import JavaMachine.Listing
import JavaMachine.Machine.Boot
import JavaMachine.Machine.Class
import JavaMachine.Machine.Execute.Arithmetic
import JavaMachine.Machine.Execute.Array
import JavaMachine.Machine.Execute.Call
import JavaMachine.Machine.Execute.Control
import JavaMachine.Machine.Execute.Field
import JavaMachine.Machine.Execute.Object
import JavaMachine.Machine.Execute.Stack
import JavaMachine.Machine.Failure
import JavaMachine.Machine.Heap
import JavaMachine.Machine.Hierarchy
import JavaMachine.Machine.Initialization
import JavaMachine.Machine.Instruction
import JavaMachine.Machine.Interpreter
import JavaMachine.Machine.Linking
import JavaMachine.Machine.Member
import JavaMachine.Machine.Memory
import JavaMachine.Machine.Native.Basic
import JavaMachine.Machine.Native.Console
import JavaMachine.Machine.Native.File
import JavaMachine.Machine.Native.Language
import JavaMachine.Machine.Native.Loader
import JavaMachine.Machine.Native.Memory
import JavaMachine.Machine.Native.System
import JavaMachine.Machine.Native.Table
import JavaMachine.Machine.Native.Thread
import JavaMachine.Machine.Object
import JavaMachine.Machine.OperandStack
import JavaMachine.Machine.Resolution
import JavaMachine.Machine.Services
import JavaMachine.Machine.Slot
import JavaMachine.Machine.State
import JavaMachine.Machine.Threads
import JavaMachine.Machine.Throwing
import JavaMachine.Main
import JavaMachine.Number.Elementary
import JavaMachine.Number.Floating
import JavaMachine.Number.Literal
import JavaMachine.Proofs.Arithmetic.Instructions
import JavaMachine.Proofs.Arithmetic.Words
import JavaMachine.Proofs.Arrays.Copy
import JavaMachine.Proofs.Arrays.Dimensions
import JavaMachine.Proofs.Arrays.Elements
import JavaMachine.Proofs.Arrays.Filling
import JavaMachine.Proofs.Arrays.Grids
import JavaMachine.Proofs.Arrays.Stores
import JavaMachine.Proofs.Assembler.Branches
import JavaMachine.Proofs.Assembler.Classes
import JavaMachine.Proofs.Assembler.Constants
import JavaMachine.Proofs.Assembler.Keys
import JavaMachine.Proofs.Assembler.Pool
import JavaMachine.Proofs.Assembler.Composition
import JavaMachine.Proofs.Assembler.Emissions
import JavaMachine.Proofs.Assembler.Forms
import JavaMachine.Proofs.Assembler.Patches
import JavaMachine.Proofs.Assembler.Workbench
import JavaMachine.Proofs.Bytes.BigEndian
import JavaMachine.Proofs.Bytes.Cursor
import JavaMachine.Proofs.Calls.Arguments
import JavaMachine.Proofs.Calls.Inherited
import JavaMachine.Proofs.Calls.Selection
import JavaMachine.Proofs.ClassFile.Decoder
import JavaMachine.Proofs.ClassFile.Extent
import JavaMachine.Proofs.ClassFile.Legible
import JavaMachine.Proofs.ClassFile.Reading
import JavaMachine.Proofs.ClassFile.RoundTrip
import JavaMachine.Proofs.ClassPath.Contents
import JavaMachine.Proofs.ClassPath.Indexed
import JavaMachine.Proofs.ClassPath.Manifest
import JavaMachine.Proofs.Code.Cursor
import JavaMachine.Proofs.Code.Decoding
import JavaMachine.Proofs.Code.Fetch
import JavaMachine.Proofs.Code.Lengths
import JavaMachine.Proofs.Code.Switches
import JavaMachine.Proofs.Descriptor.Grammar
import JavaMachine.Proofs.Fields.Access
import JavaMachine.Proofs.Fields.Operands
import JavaMachine.Proofs.Fields.Values
import JavaMachine.Proofs.Frames.Answers
import JavaMachine.Proofs.Frames.Bounded
import JavaMachine.Proofs.Frames.Delivery
import JavaMachine.Proofs.Frames.Instructions
import JavaMachine.Proofs.Frames.Kept
import JavaMachine.Proofs.Frames.Runs
import JavaMachine.Proofs.Frames.Shape
import JavaMachine.Proofs.Frames.Standing
import JavaMachine.Proofs.Frames.Watched
import JavaMachine.Proofs.Initialization.Calls
import JavaMachine.Proofs.Initialization.Chronicle
import JavaMachine.Proofs.Initialization.Deferral
import JavaMachine.Proofs.Initialization.Definition
import JavaMachine.Proofs.Initialization.Frames
import JavaMachine.Proofs.Initialization.Interpreter
import JavaMachine.Proofs.Initialization.Journal
import JavaMachine.Proofs.Initialization.Replay
import JavaMachine.Proofs.Initialization.Requests
import JavaMachine.Proofs.Initialization.Runs
import JavaMachine.Proofs.Initialization.Schedule
import JavaMachine.Proofs.Launcher.CommandLine
import JavaMachine.Proofs.Loading.Admission
import JavaMachine.Proofs.Loading.Arrays
import JavaMachine.Proofs.Loading.Attained
import JavaMachine.Proofs.Loading.Circularity
import JavaMachine.Proofs.Loading.Components
import JavaMachine.Proofs.Loading.Constants
import JavaMachine.Proofs.Loading.Declarations
import JavaMachine.Proofs.Loading.Definition
import JavaMachine.Proofs.Loading.Halfway
import JavaMachine.Proofs.Loading.Knowledge
import JavaMachine.Proofs.Loading.Layout
import JavaMachine.Proofs.Loading.Leads
import JavaMachine.Proofs.Loading.Remembered
import JavaMachine.Proofs.Loading.Renewal
import JavaMachine.Proofs.Loading.Resolution
import JavaMachine.Proofs.Loading.Search
import JavaMachine.Proofs.Loading.Steps
import JavaMachine.Proofs.Machine.Claims
import JavaMachine.Proofs.Machine.Fit
import JavaMachine.Proofs.Machine.Identity
import JavaMachine.Proofs.Machine.Instructions
import JavaMachine.Proofs.Machine.Keeps
import JavaMachine.Proofs.Machine.Lax
import JavaMachine.Proofs.Machine.Lookups
import JavaMachine.Proofs.Machine.Natives
import JavaMachine.Proofs.Machine.Operations
import JavaMachine.Proofs.Machine.Outlines
import JavaMachine.Proofs.Machine.Plans
import JavaMachine.Proofs.Machine.Prompt
import JavaMachine.Proofs.Machine.Registry
import JavaMachine.Proofs.Machine.Watched
import JavaMachine.Proofs.Memory.Blocks
import JavaMachine.Proofs.Memory.Natives
import JavaMachine.Proofs.Raising.Traces
import JavaMachine.Proofs.Raising.Instructions
import JavaMachine.Proofs.Raising.Preparations
import JavaMachine.Proofs.Raising.Throwables
import JavaMachine.Proofs.Strings.Pool
import JavaMachine.Proofs.Strings.Units
import JavaMachine.Proofs.Subtypes.Assignable
import JavaMachine.Proofs.Subtypes.Supertypes
import JavaMachine.Proofs.Text.ModifiedUtf8
import JavaMachine.Proofs.Text.Overlong
import JavaMachine.Proofs.Text.Tables
import JavaMachine.Text.Hex
import JavaMachine.Text.ModifiedUtf8
import JavaMachine.Text.Printable
import JavaMachine.Text.Quoted
import JavaMachine.Text.Units
import JavaMachine.Text.Utf8
import JavaMachine.Toml.Document
import JavaMachine.Toml.Reader
import JavaMachine.Toml.Scalar
import JavaMachine.Toml.Text
