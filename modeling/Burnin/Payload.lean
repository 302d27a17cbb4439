/-
Message bodies (`burnin/payload/payload.go`): their bytes, the checksum that
travels beside them, and the distribution that their sizes are drawn from.
-/
import Mathlib.Order.Iterate
import Burnin.Config
import Burnin.Lib.Text
import Burnin.Lib.Words

namespace Burnin

/-! ## Bodies -/

/-- `PropWorkerID`. -/
def propWorkerID : String := "worker-id"

/-- `PropSequence`. -/
def propSequence : String := "sequence"

/-- `PropContentHash`. -/
def propContentHash : String := "crc"

/-- `PropTimestampNS`. -/
def propTimestampNS : String := "timestamp-ns"

/-- One bit of the division, with the reversed IEEE polynomial. -/
def crcBit (crc : UInt32) : UInt32 := if crc &&& 1 = 1 then (crc >>> 1) ^^^ 0xedb88320 else crc >>> 1

def crcByte (crc : UInt32) (b : UInt8) : UInt32 := crcBit^[8] (crc ^^^ b.toUInt32)

/-- `crc32.ChecksumIEEE`. -/
def checksumIEEE (body : List UInt8) : UInt32 := body.foldl crcByte 0xffffffff ^^^ 0xffffffff

-- The check value of the standard, for the nine digits from 1 on.
example : checksumIEEE [0x31, 0x32, 0x33, 0x34, 0x35, 0x36, 0x37, 0x38, 0x39] = 0xcbf43926 := by
  decide +kernel

/-- `fmt.Sprintf("%08x", n)`. -/
def hex8 (n : UInt32) : String :=
  let digits := Nat.toDigits 16 n.toNat
  .ofList (.replicate (8 - digits.length) '0' ++ digits)

/-- The tag of a body. -/
def crcHex (body : List UInt8) : String := hex8 (checksumIEEE body)

/-- `randomBytes`: each draw of `rand.Uint64` gives eight bytes, the lowest
first. -/
def randomBytes (uint64 : Nat → UInt64) (n : Nat) : List UInt8 :=
  (List.range n).map fun i => (uint64 (i / 8) >>> UInt64.ofNat (8 * (i % 8))).toUInt8

/-- `Build`. -/
def build (uint64 : Nat → UInt64) (targetSize : Int) : List UInt8 × String :=
  let body := randomBytes uint64 (if targetSize < 1 then 1 else targetSize.toNat)
  (body, crcHex body)

/-- `VerifyCRC`. -/
def verifyCRC (body : List UInt8) (tag : String) : Bool := crcHex body == tag

theorem verifyCRC_crcHex (body : List UInt8) : verifyCRC body (crcHex body) = true := beq_self_eq_true _

/-- A body is never empty, and its tag is its own. -/
theorem build_spec (uint64 : Nat → UInt64) (targetSize : Int) :
    (build uint64 targetSize).1 ≠ [] ∧
      (build uint64 targetSize).2 = crcHex (build uint64 targetSize).1 := by
  refine ⟨fun h => ?_, rfl⟩
  have hlen := congrArg List.length h
  simp only [build, randomBytes, List.length_map, List.length_range, List.length_nil] at hlen
  split at hlen <;> omega

/-! ## Sizes -/

structure SizeDistribution where
  sizes : List Int := []
  weights : List Int := []
  total : Int := 0
  deriving DecidableEq

namespace SizeDistribution

/-- One entry of the text, its size and its weight. -/
def parseEntry (p : String) : Except Message (Int × Int) :=
  match Text.splitTwo ':' (Text.trimSpace p) with
  | .none => .error ⟨"invalid distribution entry: %q", [.str p]⟩
  | .some (size, weight) =>
    match Text.parseInt (Text.trimSpace size) with
    | .none => .error ⟨"invalid size in distribution: %q", [.str size]⟩
    | .some n =>
      match Text.parseInt (Text.trimSpace weight) with
      | .none => .error ⟨"invalid weight in distribution: %q", [.str weight]⟩
      | .some w => .ok (n, w)

/-- The end of a round of the loop. -/
def add (d : SizeDistribution) (entry : Int × Int) : SizeDistribution where
  sizes := d.sizes ++ [entry.1]
  weights := d.weights ++ [entry.2]
  total := Words.wrap (d.total + entry.2)

/-- `ParseDistribution`. -/
def parse (s : String) : Except Message SizeDistribution := do
  let entries ← (Text.split ',' s).mapM parseEntry
  let d := entries.foldl add {}
  if d.total = 0 then .error ⟨"distribution total weight must be > 0", []⟩ else .ok d

/-- The loop of `SelectSize`: the first entry whose weight takes the running sum
past `r`. -/
def pick (r : Int) : Int → List Int → Option Nat
  | _, [] => .none
  | cumulative, w :: weights =>
    if r < Words.wrap (cumulative + w) then
      .some 0
    else (pick r (Words.wrap (cumulative + w)) weights).map (· + 1)

/-- The entry that `SelectSize` takes when `rand.IntN` returns `r`, none when
the loop falls through. -/
def entry (d : SizeDistribution) (r : Int) : Option Nat := pick r 0 d.weights

/-- `rand.IntN(n)`, from a random word; it panics unless `n` is positive. -/
def intN (n : Int) (word : Nat) : Option Int := if 0 < n then .some (word % n) else .none

/-- `SelectSize`, none when it panics. -/
def selectSize (d : SizeDistribution) (word : Nat) : Option Int :=
  (intN d.total word).bind fun r =>
    match d.entry r with
    | .some i => d.sizes[i]?
    | .none => d.sizes.getLast?

end SizeDistribution

end Burnin
