import SlotCompiler.Diagnostic.Transcript
import SlotCompiler.Main
import SlotCompiler.Proofs.Bytecode.Listings
import SlotCompiler.Proofs.Bytecode.Progress
import SlotCompiler.Proofs.CommandLine.Printing
import SlotCompiler.Proofs.Compilation.FileBytes
import SlotCompiler.Proofs.Compilation.FrameSizes
import SlotCompiler.Proofs.Compilation.Policies
import SlotCompiler.Proofs.Diagnostic.Windows
import SlotCompiler.Proofs.Generation.Composition
import SlotCompiler.Proofs.Generation.FrameDiscipline
import SlotCompiler.Proofs.Generation.Preservation
import SlotCompiler.Proofs.Generation.Scoping
import SlotCompiler.Proofs.Generation.Verification
import SlotCompiler.Proofs.Parsing.Loop
import SlotCompiler.Proofs.Parsing.Prefixes
import SlotCompiler.Proofs.Parsing.Restart
import SlotCompiler.Proofs.Parsing.RoundTrip
import SlotCompiler.Proofs.Scanning.Listings
import SlotCompiler.Proofs.Scanning.Respacing
import SlotCompiler.Proofs.Scanning.Resuming
import SlotCompiler.Proofs.Wire.Instructions
import SlotCompiler.Proofs.Wire.Saving
