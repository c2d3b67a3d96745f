import JarAtlas.Proofs.Store.Requests

/-!
Searching for classes. The search looks through a fixed number of hits for each class that is asked
for, and gives the classes of these hits by their first hits. So it gives the best classes of all
hits exactly when the hits it looks through are of enough classes, or of all that there are.
-/

open List

namespace JarAtlas

open SearchFilter Hit

namespace Database

section

variable {d : Database} {c : Catalogue} (hreadable : d.isReadable = true) (hapi : d.api = some c)
  {query : String} {n : Nat}

include hreadable hapi

end

end Database

namespace FullText

variable {α : Type} {le : α → α → Bool}

end FullText

end JarAtlas
