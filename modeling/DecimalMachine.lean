import DecimalMachine.Text.Lines
import DecimalMachine.Text.Quoted
import DecimalMachine.Text.Similarity
import DecimalMachine.Text.Utf8
import DecimalMachine.Word
import DecimalMachine.Opcode
import DecimalMachine.Assembly
import DecimalMachine.Image.Parser
import DecimalMachine.Dump
import DecimalMachine.Emulator
import DecimalMachine.Disassembly
import DecimalMachine.Settings
import DecimalMachine.CommandLine.Tools
import DecimalMachine.Main
import DecimalMachine.Proofs.Memory
import DecimalMachine.Proofs.Cycle
import DecimalMachine.Proofs.Likeness
import DecimalMachine.Proofs.Calls
import DecimalMachine.Proofs.Attempts
import DecimalMachine.Proofs.Loading
import DecimalMachine.Proofs.Ranges
import DecimalMachine.Proofs.Resumption
import DecimalMachine.Proofs.Schedule
import DecimalMachine.Proofs.Breakpoints
import DecimalMachine.Proofs.Numerals
import DecimalMachine.Proofs.SourceMachine
import DecimalMachine.Proofs.Placement
import DecimalMachine.Proofs.Refinement
import DecimalMachine.Proofs.TextCuts
import DecimalMachine.Proofs.Encodings
import DecimalMachine.Proofs.AssemblerHistory
import DecimalMachine.Proofs.AddressNames
import DecimalMachine.Proofs.ProgramLayout
import DecimalMachine.Proofs.LineReading
import DecimalMachine.Proofs.Verdict
import DecimalMachine.Proofs.ImageReading
import DecimalMachine.Proofs.ImageText
import DecimalMachine.Proofs.ImageStability
import DecimalMachine.Proofs.Failures
import DecimalMachine.Proofs.FailedCalls
import DecimalMachine.Proofs.SourceText
import DecimalMachine.Proofs.Reassembly
import DecimalMachine.Proofs.Declarations
import DecimalMachine.Proofs.ImageSource
import DecimalMachine.Proofs.StrictSymbols
import DecimalMachine.Proofs.Twins
import DecimalMachine.Proofs.ProgramFiles
import DecimalMachine.Proofs.Restoration
import DecimalMachine.Proofs.SourceShape
import DecimalMachine.Proofs.LetterCase
import DecimalMachine.Proofs.LineLayout
import DecimalMachine.Proofs.SourceEdits
import DecimalMachine.Proofs.Effects
import DecimalMachine.Proofs.MemorySize
import DecimalMachine.Proofs.ExecutionModes
import DecimalMachine.Proofs.AddressFaults
import DecimalMachine.Proofs.UnreadInput
import DecimalMachine.Proofs.RawCells
import DecimalMachine.Proofs.LineGrammar
import DecimalMachine.Proofs.ImmediateForms
import DecimalMachine.Proofs.SourceLines
import DecimalMachine.Proofs.Warnings
import DecimalMachine.Proofs.Listing
import DecimalMachine.Proofs.Renaming
import DecimalMachine.Proofs.MemoryText
import DecimalMachine.Proofs.MemoryGrid
import DecimalMachine.Proofs.SharedNames
import DecimalMachine.Proofs.DiagnosticPlaces
import DecimalMachine.Proofs.RegisterDump
import DecimalMachine.Proofs.Division
import DecimalMachine.Proofs.WordCodecs
