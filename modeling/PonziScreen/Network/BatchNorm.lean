import PonziScreen.Network.Parameter

/-!
# Batch normalisation

Each column is shifted and scaled to mean zero and variance one, and then to a mean and a variance
that are learned. In training, mean and variance are those of the batch, and running estimates
follow them; otherwise the running estimates are used.
-/

namespace PonziScreen

/-- What a batch normalisation knows of one column. -/
structure NormChannel (α : Type) where
  weight : α
  bias : α
  runningMean : α
  runningVar : α
deriving Repr

/-- A batch normalisation, column by column. -/
structure BatchNorm (α : Type) where
  channels : List (NormChannel α)
deriving Repr

variable {α : Type}

namespace NormChannel

variable [Scalar α]

/-- What is added to a variance before its root is taken: `0.00001`. -/
def epsilon : α := Scalar.ratio 1 100000

/-- The share of a new value in a running estimate: `0.1`. -/
def momentum : α := Scalar.ratio 1 10

/-- The channel before it has seen anything. -/
def initial : NormChannel α := ⟨Scalar.one, Scalar.zero, Scalar.zero, Scalar.one⟩

/-- An entry of the column, given the mean and the variance of the column. -/
def normalise (c : NormChannel α) (mean var x : α) : α :=
  (x - mean) * (c.weight / Scalar.sqrt (var + epsilon)) + c.bias

/-- An estimate moved towards a new value. -/
def blend (old new : α) : α := old * (Scalar.one - momentum) + new * momentum

/-- The mean of a column. -/
def mean (column : List α) : α := Scalar.sum column / Scalar.ofNat column.length

/-- The mean square of the deviations of a column from its mean. -/
def variance (column : List α) : α :=
  mean (column.map fun x => (x - mean column) * (x - mean column))

/-- The running estimates after a column has been seen. The variance is made that of a sample. -/
def observe (c : NormChannel α) (column : List α) : NormChannel α :=
  let n := column.length
  { c with
    runningMean := blend c.runningMean (mean column)
    runningVar := blend c.runningVar (variance column * Scalar.ratio n (n - 1)) }

end NormChannel

namespace BatchNorm

/-- The number of columns. -/
def width (b : BatchNorm α) : Nat := b.channels.length

/-- A normalisation that has seen nothing. -/
def initial [Scalar α] (width : Nat) : BatchNorm α := ⟨List.replicate width .initial⟩

variable [Scalar α]

/-- Normalises the rows of a matrix, given the mean and the variance of each column. -/
def normaliseRow (channels : List (NormChannel α)) (statistics : List (α × α)) (row : List α) :
    List α :=
  List.zipWith (fun c sx => c.normalise sx.1.1 sx.1.2 sx.2) channels (statistics.zip row)

/-- A normalised row has an entry for each column. -/
theorem length_normaliseRow {channels : List (NormChannel α)} {statistics : List (α × α)}
    {row : List α} (hs : statistics.length = channels.length) (hr : row.length = channels.length) :
    (normaliseRow channels statistics row).length = channels.length := by
  simp [normaliseRow, hs, hr]

/-- The rows of a matrix of the right width, normalised. -/
def normalise (b : BatchNorm α) (x : Matrix α) (hx : x.width = b.width)
    (statistics : List (α × α)) (hs : statistics.length = b.channels.length) : Matrix α :=
  x.mapRows b.width (normaliseRow b.channels statistics) fun _ hr =>
    length_normaliseRow hs (hr.trans hx)

/-- The running mean and variance of each column. -/
def runningStatistics (b : BatchNorm α) : List (α × α) :=
  b.channels.map fun c => (c.runningMean, c.runningVar)

/-- The mean and variance of each column of a matrix. -/
def batchStatistics (x : Matrix α) : List (α × α) :=
  x.columns.map fun column => (NormChannel.mean column, NormChannel.variance column)

/-- The normalisation after it has seen a matrix. -/
def observe (b : BatchNorm α) (x : Matrix α) : BatchNorm α :=
  ⟨List.zipWith NormChannel.observe b.channels x.columns⟩

/-- Normalises a matrix. Training needs at least two rows, and changes the running estimates. -/
def forward (b : BatchNorm α) (x : Matrix α) (training : Bool) :
    Except Failure (Matrix α) × BatchNorm α :=
  if hx : x.width = b.width then
    if training then
      if x.height ≤ 1 then (.error (.shapeMismatch (.normRows x.height)), b)
      else
        (.ok (b.normalise x hx (batchStatistics x)
          (by simp [batchStatistics, Matrix.columns, hx, width])), b.observe x)
    else
      (.ok (b.normalise x hx b.runningStatistics (by simp [runningStatistics])), b)
  else (.error (.shapeMismatch (.normWidth b.width x.width)), b)

omit [Scalar α] in
/-- The parameters under a path. The running estimates are none. -/
def parameters (b : BatchNorm α) (path : String) : List (Parameter α) :=
  [.ofList s!"{path}.weight" (b.channels.map NormChannel.weight),
    .ofList s!"{path}.bias" (b.channels.map NormChannel.bias)]

omit [Scalar α] in
/-- Changes the entries of the parameters under a path. -/
def mapParameters (b : BatchNorm α) (path : String) (f : String → Nat → α → α) : BatchNorm α :=
  ⟨b.channels.mapIdx fun j c =>
    { c with weight := f s!"{path}.weight" j c.weight, bias := f s!"{path}.bias" j c.bias }⟩

end BatchNorm

end PonziScreen
