import ModuleCache.Main
import ModuleCache.Proofs.Path.Components
import ModuleCache.Proofs.Path.Names
import ModuleCache.Proofs.Path.Suffix
import ModuleCache.Proofs.Path.Normal
import ModuleCache.Proofs.Placement.Shape
import ModuleCache.Proofs.Coherence.Files
import ModuleCache.Proofs.Coherence.Opening
import ModuleCache.Proofs.Coherence.Runs
import ModuleCache.Proofs.Placement.Clash
import ModuleCache.Proofs.Placement.Collision
import ModuleCache.Proofs.Maps.Runs
import ModuleCache.Proofs.Trace.Frames
import ModuleCache.Proofs.SourceMap.Deltas
import ModuleCache.Proofs.Loading.Finishing
import ModuleCache.Proofs.SourceMap.Stored
import ModuleCache.Proofs.Placement.Packages
import ModuleCache.Proofs.Placement.Containment
import ModuleCache.Proofs.Hooks.Refinement
import ModuleCache.Proofs.Hooks.Transcript
import ModuleCache.Proofs.Hooks.Separation
import ModuleCache.Proofs.Loading.Startup
import ModuleCache.Proofs.Trace.Offers
import ModuleCache.Proofs.CommandLine.Attempts
import ModuleCache.Proofs.CommandLine.Warming
import ModuleCache.Proofs.SourceMap.Nearest
import ModuleCache.Proofs.Hooks.Decision
import ModuleCache.Proofs.Store.AllOrNothing
import ModuleCache.Proofs.Trace.Answers
import ModuleCache.Proofs.Vlq.Groups
import ModuleCache.Proofs.Extensions
import ModuleCache.Proofs.Transpiler.Compiling
import ModuleCache.Proofs.CommandLine.Discovery
import ModuleCache.Proofs.Transpiler.MapComments
import ModuleCache.Proofs.CommandLine.Places
import ModuleCache.Proofs.Transpiler.Locating
import ModuleCache.Proofs.Loading.Guards
import ModuleCache.Proofs.Path.Canonical
import ModuleCache.Proofs.SourceMap.Words
