/-!
# SHA3-256

The Keccak permutation on 25 lanes of 64 bits, and the sponge with rate 136 and capacity 64 bytes
that FIPS 202 calls SHA3-256. Lane `(x, y)` has the index `x + 5 * y`.
-/

namespace Sentential.Keccak

abbrev State := Vector UInt64 25

def rotateLeft (w : UInt64) (distance : UInt64) : UInt64 :=
  if distance == 0 then w else (w <<< distance) ||| (w >>> (64 - distance))

def rotations : Vector UInt64 25 :=
  #v[0, 1, 62, 28, 27, 36, 44, 6, 55, 20, 3, 10, 43, 25, 39, 41, 45, 15, 21, 8, 18, 2, 61, 56, 14]

def roundConstants : List UInt64 :=
  [0x0000000000000001, 0x0000000000008082, 0x800000000000808A, 0x8000000080008000,
    0x000000000000808B, 0x0000000080000001, 0x8000000080008081, 0x8000000000008009,
    0x000000000000008A, 0x0000000000000088, 0x0000000080008009, 0x000000008000000A,
    0x000000008000808B, 0x800000000000008B, 0x8000000000008089, 0x8000000000008003,
    0x8000000000008002, 0x8000000000000080, 0x000000000000800A, 0x800000008000000A,
    0x8000000080008081, 0x8000000000008080, 0x0000000080000001, 0x8000000080008008]

def theta (s : State) : State :=
  let parity : Vector UInt64 5 := Vector.ofFn fun x =>
    s[x.val] ^^^ s[x.val + 5] ^^^ s[x.val + 10] ^^^ s[x.val + 15] ^^^ s[x.val + 20]
  let effect : Vector UInt64 5 := Vector.ofFn fun x =>
    parity[(x.val + 4) % 5] ^^^ rotateLeft parity[(x.val + 1) % 5] 1
  Vector.ofFn fun i => s[i.val] ^^^ effect[i.val % 5]

def rho (s : State) : State := Vector.ofFn fun i => rotateLeft s[i.val] rotations[i.val]

def pi (s : State) : State :=
  Vector.ofFn fun i =>
    let x := i.val % 5
    let y := i.val / 5
    s[(x + 3 * y) % 5 + 5 * x]

def chi (s : State) : State :=
  Vector.ofFn fun i =>
    let row := 5 * (i.val / 5)
    s[i.val] ^^^ (~~~ s[row + (i.val + 1) % 5] &&& s[row + (i.val + 2) % 5])

def iota (s : State) (constant : UInt64) : State := s.set 0 (s[0] ^^^ constant)

def permute (s : State) : State :=
  roundConstants.foldl (fun s constant => iota (chi (pi (rho (theta s)))) constant) s

def rate : Nat := 136

/-- The message, the bits 01 and 1, zeros, and a last 1, in as many bytes as fill the last block. -/
def pad (message : Array UInt8) : Array UInt8 :=
  let room := rate - message.size % rate
  if room = 1 then message.push 0x86
  else message ++ #[0x06] ++ Array.replicate (room - 2) 0 ++ #[0x80]

def laneAt (bytes : Array UInt8) (start : Nat) : UInt64 :=
  (List.range 8).foldr (fun k lane => (lane <<< 8) ||| (bytes.getD (start + k) 0).toUInt64) 0

def absorb (s : State) (bytes : Array UInt8) (start : Nat) : State :=
  permute (Vector.ofFn fun i =>
    if i.val < rate / 8 then s[i.val] ^^^ laneAt bytes (start + 8 * i.val) else s[i.val])

def laneBytes (lane : UInt64) : List UInt8 :=
  (List.range 8).map fun k => (lane >>> (8 * k).toUInt64).toUInt8

def digest (message : Array UInt8) : List UInt8 :=
  let padded := pad message
  let final := (List.range (padded.size / rate)).foldl
    (fun s block => absorb s padded (rate * block)) (Vector.replicate 25 0)
  (final.toList.take 4).flatMap laneBytes

end Sentential.Keccak
