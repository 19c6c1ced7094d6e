import ScriptCompiler.Options.File
import ScriptCompiler.Proofs.Closures.Binding
import ScriptCompiler.Proofs.Codec.Canonical
import ScriptCompiler.Proofs.Codec.Corruption
import ScriptCompiler.Proofs.Codec.Interning
import ScriptCompiler.Proofs.Codec.Truncation
import ScriptCompiler.Proofs.Comments.Printed
import ScriptCompiler.Proofs.Containers.Sharing
import ScriptCompiler.Proofs.ControlFlow.Statement
import ScriptCompiler.Proofs.Declarations.Batching
import ScriptCompiler.Proofs.Diagnostics.Anchors
import ScriptCompiler.Proofs.Diagnostics.Completeness
import ScriptCompiler.Proofs.Hoisting.Order
import ScriptCompiler.Proofs.Hoisting.Preservation
import ScriptCompiler.Proofs.Images.Copies
import ScriptCompiler.Proofs.Printing.Nesting
import ScriptCompiler.Proofs.Printing.Openings
import ScriptCompiler.Proofs.Resolution.Paths
import ScriptCompiler.Proofs.Semantics.Writes
import ScriptCompiler.Proofs.Session.Constructors
import ScriptCompiler.Proofs.Temporaries.Scoping
import ScriptCompiler.Report.Diagnostic
