import BankedLinker.Diagnostics
import BankedLinker.Expr.Arithmetic
import BankedLinker.Expr.Error
import BankedLinker.Expr.Machine
import BankedLinker.Expr.Opcode
import BankedLinker.Fault
import BankedLinker.Linker.Basic
import BankedLinker.Linker.Evaluate
import BankedLinker.Linker.Link
import BankedLinker.Linker.Patch
import BankedLinker.Log
import BankedLinker.Main
import BankedLinker.Object.Assembler
import BankedLinker.Object.Basic
import BankedLinker.Object.Decode
import BankedLinker.Object.Encode
import BankedLinker.Object.Format
import BankedLinker.Object.Source
import BankedLinker.Output.Listing
import BankedLinker.Output.MapFile
import BankedLinker.Output.Rom
import BankedLinker.Output.SymbolFile
import BankedLinker.Output.Verify
import BankedLinker.Patch.Value
import BankedLinker.Placement.Assign
import BankedLinker.Placement.Ledger
import BankedLinker.Problem
import BankedLinker.Region
import BankedLinker.Run.CommandLine
import BankedLinker.Run.Console
import BankedLinker.Run.Execute
import BankedLinker.Run.FileSystem
import BankedLinker.Run.Options
import BankedLinker.Run.PadByte
import BankedLinker.Run.Shell
import BankedLinker.Section.Constraints
import BankedLinker.Section.Merged
import BankedLinker.Section.Registry
import BankedLinker.Symbol.Label
import BankedLinker.Symbol.Lookup
import BankedLinker.Symbol.Table
import BankedLinker.Text.Bytes
import BankedLinker.Text.Numeral
import BankedLinker.Text.Printable
import BankedLinker.Text.Quoted
import BankedLinker.Text.Utf8
import BankedLinker.Proofs.Alignment
import BankedLinker.Proofs.Constraints
import BankedLinker.Proofs.Merging
import BankedLinker.Proofs.FreeSpace
import BankedLinker.Proofs.Placement
import BankedLinker.Proofs.Assignment
import BankedLinker.Proofs.Decoding
import BankedLinker.Proofs.Image
import BankedLinker.Proofs.Linking
import BankedLinker.Proofs.RoundTrip
import BankedLinker.Proofs.Demands
import BankedLinker.Proofs.Execution
import BankedLinker.Proofs.FragmentSize
import BankedLinker.Proofs.Representation
import BankedLinker.Proofs.Outcome
import BankedLinker.Proofs.Switches
import BankedLinker.Proofs.Symbols
import BankedLinker.Proofs.Accesses
import BankedLinker.Proofs.Bounds
import BankedLinker.Proofs.Names
import BankedLinker.Proofs.Packing
import BankedLinker.Proofs.Reordering
import BankedLinker.Proofs.Tally
import BankedLinker.Proofs.FileOrder
import BankedLinker.Proofs.Accounting
import BankedLinker.Proofs.Priority
import BankedLinker.Proofs.Verification
import BankedLinker.Proofs.Refusal
import BankedLinker.Proofs.Turns
import BankedLinker.Proofs.Collisions
import BankedLinker.Proofs.FirstFit
import BankedLinker.Proofs.EmptySections
import BankedLinker.Proofs.Bytecode
import BankedLinker.Proofs.Compatibility
import BankedLinker.Proofs.Meaning
import BankedLinker.Proofs.Compilation
import BankedLinker.Proofs.Corruption
import BankedLinker.Proofs.Arithmetic
import BankedLinker.Proofs.SymbolHistory
import BankedLinker.Proofs.Truncation
import BankedLinker.Proofs.Storing
import BankedLinker.Proofs.Content
import BankedLinker.Proofs.PatchOrder
import BankedLinker.Proofs.Printing
import BankedLinker.Proofs.SymbolListing
import BankedLinker.Proofs.MemoryUse
import BankedLinker.Proofs.Traces
import BankedLinker.Proofs.Reservations
