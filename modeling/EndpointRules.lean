import EndpointRules.Main
import EndpointRules.Proofs.Assembler.Coalescing
import EndpointRules.Proofs.Assembler.Interning
import EndpointRules.Proofs.Diagram.Endless
import EndpointRules.Proofs.Diagram.Meaning
import EndpointRules.Proofs.Diagram.Safety
import EndpointRules.Proofs.Engine.Independence
import EndpointRules.Proofs.Engine.Registration
import EndpointRules.Proofs.Image.PrefixFree
import EndpointRules.Proofs.Image.RoundTrip
import EndpointRules.Proofs.Listing.Lines
import EndpointRules.Proofs.Listing.Padding
import EndpointRules.Proofs.Machine.Capacity
import EndpointRules.Proofs.Machine.Conditions
import EndpointRules.Proofs.Machine.Decoding
import EndpointRules.Proofs.Machine.Endpoints
import EndpointRules.Proofs.Machine.Failures
import EndpointRules.Proofs.Machine.Inlined
import EndpointRules.Proofs.Machine.LastFailure
import EndpointRules.Proofs.Machine.Linking
import EndpointRules.Proofs.Machine.Relocation
import EndpointRules.Proofs.Machine.Reuse
import EndpointRules.Proofs.Machine.ShortForms
import EndpointRules.Proofs.Machine.Templates
import EndpointRules.Proofs.Machine.Tracing
import EndpointRules.Proofs.Program.Ranges
import EndpointRules.Proofs.RegisterFile.Precedence
import EndpointRules.Proofs.RegisterTable
import EndpointRules.Proofs.Text.HostLabels
import EndpointRules.Proofs.Text.Splitting
import EndpointRules.Proofs.Uri.Addresses
import EndpointRules.Proofs.Uri.Characters
import EndpointRules.Proofs.Uri.HostLabels
import EndpointRules.Proofs.Uri.Reassembly
import EndpointRules.Proofs.Uri.Recency
import EndpointRules.Proofs.Value.Display
