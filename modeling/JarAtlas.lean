import JarAtlas.Commands.Line
import JarAtlas.Console.Logo
import JarAtlas.Java.Answer
import JarAtlas.Proofs.Assets.Category
import JarAtlas.Proofs.Assets.Image
import JarAtlas.Proofs.Assets.Repeats
import JarAtlas.Proofs.Catalogue.Counting
import JarAtlas.Proofs.Catalogue.Numbering
import JarAtlas.Proofs.Commands.Detect
import JarAtlas.Proofs.Commands.Frame
import JarAtlas.Proofs.Decompiler.Engines
import JarAtlas.Proofs.Explore.CallFlow
import JarAtlas.Proofs.Explore.Interfaces
import JarAtlas.Proofs.Explore.LineRanges
import JarAtlas.Proofs.Explore.Implementations
import JarAtlas.Proofs.Explore.QualifiedSearch
import JarAtlas.Proofs.Java.Methods
import JarAtlas.Proofs.Java.RoundTrip
import JarAtlas.Proofs.Java.StringConstants
import JarAtlas.Proofs.Messages.Languages
import JarAtlas.Proofs.Messages.Placeholders
import JarAtlas.Proofs.Query.Literals
import JarAtlas.Proofs.Store.ClassSearch
import JarAtlas.Proofs.Tools.FullNames
import JarAtlas.Proofs.Workspace.Damaged

