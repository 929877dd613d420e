import SurfaceStudio.Service.Http
import SurfaceStudio.Service.Live
import SurfaceStudio.Proofs.Surface.Sampling
import SurfaceStudio.Proofs.Fourier.Rendering
import SurfaceStudio.Proofs.Session.Coherence
import SurfaceStudio.Proofs.Service.Conversation
import SurfaceStudio.Proofs.Grid.Disk
import SurfaceStudio.Proofs.Formula.OverArrays
import SurfaceStudio.Proofs.Formula.Tokenization
import SurfaceStudio.Proofs.Service.Agreement
import SurfaceStudio.Proofs.Preset.Reloading
import SurfaceStudio.Proofs.Formula.Printing
import SurfaceStudio.Proofs.Formula.Bounds
import SurfaceStudio.Proofs.Surface.Blame
import SurfaceStudio.Proofs.Formula.FaultPlaces
import SurfaceStudio.Proofs.Stroke.Thinning
import SurfaceStudio.Proofs.Preset.Applying
import SurfaceStudio.Proofs.Surface.Corners
import SurfaceStudio.Proofs.Grid.Decision
import SurfaceStudio.Proofs.Fourier.Closeness
import SurfaceStudio.Proofs.Fourier.Aliasing
import SurfaceStudio.Proofs.Service.Sending
import SurfaceStudio.Proofs.Preset.FileNames
import SurfaceStudio.Proofs.Formula.Variables
import SurfaceStudio.Proofs.Surface.Facets
import SurfaceStudio.Proofs.Preset.Layers
import SurfaceStudio.Proofs.Mesh.Enclosure
import SurfaceStudio.Proofs.Fourier.Tracing
import SurfaceStudio.Proofs.Journal.Lines
