namespace SourceStepper.Evm.Keccak

/-- The state: 25 lanes of 64 bits, lane `x + 5 * y` at column `x` and row `y`. -/
abbrev State := Array UInt64

/-- The lane at a column and a row, which count modulo five. -/
def lane (s : State) (x y : Nat) : UInt64 := s.getD (x % 5 + 5 * (y % 5)) 0

def rotate (v : UInt64) (n : Nat) : UInt64 :=
  if n % 64 = 0 then v else (v <<< UInt64.ofNat (n % 64)) ||| (v >>> UInt64.ofNat (64 - n % 64))

def offsets : Array Nat :=
  #[0, 1, 62, 28, 27, 36, 44, 6, 55, 20, 3, 10, 43, 25, 39, 41, 45, 15, 21, 8, 18, 2, 61, 56, 14]

def constants : List UInt64 :=
  [0x0000000000000001, 0x0000000000008082, 0x800000000000808A, 0x8000000080008000,
   0x000000000000808B, 0x0000000080000001, 0x8000000080008081, 0x8000000000008009,
   0x000000000000008A, 0x0000000000000088, 0x0000000080008009, 0x000000008000000A,
   0x000000008000808B, 0x800000000000008B, 0x8000000000008089, 0x8000000000008003,
   0x8000000000008002, 0x8000000000000080, 0x000000000000800A, 0x800000008000000A,
   0x8000000080008081, 0x8000000000008080, 0x0000000080000001, 0x8000000080008008]

def ofLanes (f : Nat → Nat → UInt64) : State := Array.ofFn fun i : Fin 25 => f (i % 5) (i / 5)

/-- Every lane together with the parity of two columns beside it. -/
def mixColumns (s : State) : State :=
  let parity := Array.ofFn fun x : Fin 5 =>
    lane s x 0 ^^^ lane s x 1 ^^^ lane s x 2 ^^^ lane s x 3 ^^^ lane s x 4
  ofLanes fun x y =>
    lane s x y ^^^ parity.getD ((x + 4) % 5) 0 ^^^ rotate (parity.getD ((x + 1) % 5) 0) 1

/-- All lanes rotated, and put where they belong: lane `(x, y)` goes to `(y, 2 * x + 3 * y)`. -/
def scatter (s : State) : State :=
  ofLanes fun x y =>
    let column := (x + 3 * y) % 5
    rotate (lane s column x) (offsets.getD (column + 5 * x) 0)

/-- Every lane together with the two lanes behind it in its row. -/
def mixRows (s : State) : State :=
  ofLanes fun x y => lane s x y ^^^ (~~~ lane s (x + 1) y &&& lane s (x + 2) y)

def round (s : State) (constant : UInt64) : State :=
  (mixRows (scatter (mixColumns s))).modify 0 (· ^^^ constant)

def permute (s : State) : State := constants.foldl round s

/-- How many bytes are taken in between two permutations. -/
def rate : Nat := 136

/-- Eight bytes as a lane, the least significant byte first. -/
def laneOfBytes (bytes : List UInt8) : UInt64 :=
  bytes.foldr (fun b v => (v <<< 8) ||| b.toUInt64) 0

def lanesOfBytes (bytes : List UInt8) : List UInt64 :=
  (List.range ((bytes.length + 7) / 8)).map fun i => laneOfBytes ((bytes.drop (8 * i)).take 8)

def absorbBlock (s : State) (block : List UInt8) : State :=
  let lanes := (lanesOfBytes block).toArray
  permute (Array.ofFn fun i : Fin 25 => s.getD i 0 ^^^ lanes.getD i 0)

/-- The bytes filled up to whole blocks: a one bit behind them, and a one bit at the very end. -/
def pad (bytes : List UInt8) : List UInt8 :=
  let missing := rate - bytes.length % rate
  if missing = 1 then bytes ++ [0x81]
  else bytes ++ [0x01] ++ List.replicate (missing - 2) 0 ++ [0x80]

def absorb (s : State) (bytes : List UInt8) : State :=
  (List.range (bytes.length / rate)).foldl
    (fun s i => absorbBlock s ((bytes.drop (rate * i)).take rate)) s

/-- The bytes of a lane, the least significant one first. -/
def bytesOfLane (v : UInt64) : List UInt8 :=
  (List.range 8).map fun i => (v >>> UInt64.ofNat (8 * i)).toUInt8

def hash (bytes : List UInt8) : List UInt8 :=
  let s := absorb (Array.replicate 25 0) (pad bytes)
  (List.range 4).flatMap fun i => bytesOfLane (s.getD i 0)

end SourceStepper.Evm.Keccak
