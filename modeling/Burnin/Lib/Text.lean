/-
Numbers and durations in texts, as the packages `strconv`, `strings` and `time`
of Go read and print them.

A Go string is a sequence of bytes; here it is a `String` with one character
for each byte. What is printed is read back: `parseUint_formatUint` and
`parseInt_formatInt`. Numbers padded with zeros are told apart (`padded_inj`).
-/
import Mathlib.Data.UInt
import Burnin.Lib.Binary64

namespace Text

theorem bind_eq_ok {ε α β : Type} {x : Except ε α} {f : α → Except ε β} {b : β} :
    (x >>= f) = .ok b ↔ ∃ a, x = .ok a ∧ f a = .ok b := by
  cases x with
  | error err =>
    constructor
    · intro h
      cases h
    · rintro ⟨a, h, -⟩
      cases h
  | ok a =>
    constructor
    · intro h
      exact ⟨a, rfl, h⟩
    · rintro ⟨a', h, hf⟩
      cases h
      exact hf

/-- `string(bytes)`. -/
def ofBytes (bytes : List UInt8) : String := .ofList (bytes.map fun b => Char.ofNat b.toNat)

/-! ## Decimal numbers -/

/-- A number of one or more decimal digits. -/
def decimal (cs : List Char) : Option Nat :=
  if cs ≠ [] ∧ cs.all Char.isDigit = true then .some (Nat.ofDigitChars 10 cs 0) else .none

theorem decimal_toDigits (n : Nat) : decimal (Nat.toDigits 10 n) = .some n := by
  have hdigits : (Nat.toDigits 10 n).all Char.isDigit = true :=
    List.all_eq_true.mpr fun c hc => Nat.isDigit_of_mem_toDigits (by decide) (by decide) hc
  rw [decimal, if_pos ⟨Nat.toDigits_ne_nil, hdigits⟩, Nat.ofDigitChars_ten_toDigits]

/-! ## Padded numbers -/

/-- The value of a digit in a base up to 16. -/
def digitValue (c : Char) : Nat := if c.isDigit then c.toNat - 48 else c.toNat - 87

theorem digitValue_digitChar : ∀ n < 16, digitValue n.digitChar = n := by decide

def valueOf (b : Nat) (cs : List Char) : Nat := cs.foldl (fun n c => b * n + digitValue c) 0

theorem valueOf_toDigits {b : Nat} (hb : 1 < b) (hb' : b ≤ 16) (n : Nat) :
    valueOf b (Nat.toDigits b n) = n := by
  induction n using Nat.strongRecOn with
  | ind n ih =>
    by_cases hn : n < b
    · rw [Nat.toDigits_of_lt_base hn, valueOf, List.foldl_cons, List.foldl_nil,
        digitValue_digitChar n (by omega)]
      omega
    · have hlt : n / b < n := Nat.div_lt_self (by omega) hb
      have hmod : n % b < 16 := (Nat.mod_lt n (by omega)).trans_le hb'
      rw [Nat.toDigits_of_base_le hb (by omega), valueOf, List.foldl_append, ← valueOf, ih _ hlt,
        List.foldl_cons, List.foldl_nil, digitValue_digitChar _ hmod]
      exact Nat.div_add_mod n b

/-- The digits of `n`, with zeros in front of them up to `width`. -/
def padded (b width n : Nat) : List Char :=
  .replicate (width - (Nat.toDigits b n).length) '0' ++ Nat.toDigits b n

theorem valueOf_padded {b : Nat} (hb : 1 < b) (hb' : b ≤ 16) (width n : Nat) :
    valueOf b (padded b width n) = n := by
  have hzeros (k : Nat) : (List.replicate k '0').foldl (fun n c => b * n + digitValue c) 0 = 0 := by
    induction k with
    | zero => rfl
    | succ k ih => simpa [List.replicate_succ, digitValue] using ih
  rw [valueOf, padded, List.foldl_append, hzeros]
  exact valueOf_toDigits hb hb' n

theorem padded_inj {b : Nat} (hb : 1 < b) (hb' : b ≤ 16) (width : Nat) {m n : Nat}
    (h : padded b width m = padded b width n) : m = n := by
  rw [← valueOf_padded hb hb' width m, h, valueOf_padded hb hb']

/-! ## Numbers that are read back -/

/-- `strconv.ParseUint(s, 10, 64)`. -/
def parseUint (s : String) : Option UInt64 :=
  (decimal s.toList).bind fun n => if n < 2 ^ 64 then .some (.ofNat n) else .none

/-- `strconv.FormatUint(n, 10)`. -/
def formatUint (n : UInt64) : String := toString n.toNat

theorem parseUint_formatUint (n : UInt64) : parseUint (formatUint n) = .some n := by
  have hn : n.toNat < 2 ^ 64 := n.toNat_lt
  rw [parseUint, formatUint, Nat.toString_eq_repr, Nat.toList_repr, decimal_toDigits,
    Option.bind_some, if_pos hn, UInt64.ofNat_toNat]

/-- The sign that a number may start with, and the rest. -/
def sign : List Char → Bool × List Char
  | [] => (false, [])
  | c :: cs => if c = '-' then (true, cs) else if c = '+' then (false, cs) else (false, c :: cs)

/-- `strconv.ParseInt(s, 10, 64)`, and `strconv.Atoi(s)`. -/
def parseInt (s : String) : Option Int :=
  let (neg, cs) := sign s.toList
  (decimal cs).bind fun n =>
    if neg then if n ≤ 2 ^ 63 then .some (-n) else .none
    else if n < 2 ^ 63 then .some n else .none

/-- `strconv.FormatInt(n, 10)`. -/
def formatInt (n : Int) : String := toString n

theorem sign_toDigits (n : Nat) : sign (Nat.toDigits 10 n) = (false, Nat.toDigits 10 n) := by
  cases h : Nat.toDigits 10 n with
  | nil => rfl
  | cons c cs =>
    have hc : c.isDigit = true :=
      Nat.isDigit_of_mem_toDigits (by decide) (by decide) (h ▸ List.mem_cons_self)
    have hminus : c ≠ '-' := by
      rintro rfl
      exact absurd hc (by decide)
    have hplus : c ≠ '+' := by
      rintro rfl
      exact absurd hc (by decide)
    rw [sign, if_neg hminus, if_neg hplus]

theorem parseInt_formatInt {n : Int} (hlow : -2 ^ 63 ≤ n) (hhigh : n < 2 ^ 63) :
    parseInt (formatInt n) = .some n := by
  cases n with
  | ofNat n =>
    have hn : n < 2 ^ 63 := Int.ofNat_lt.mp hhigh
    have hs : (formatInt (.ofNat n)).toList = Nat.toDigits 10 n := Nat.toList_repr
    simp only [parseInt, hs, sign_toDigits, decimal_toDigits, Option.bind_some, if_pos hn,
      Bool.false_eq_true, if_false]
    rfl
  | negSucc n =>
    have hn : n + 1 ≤ 2 ^ 63 := by omega
    have hs : (formatInt (.negSucc n)).toList = '-' :: Nat.toDigits 10 (n + 1) := by
      show ("-" ++ Nat.repr (n + 1)).toList = _
      rw [String.toList_append, Nat.toList_repr]
      rfl
    simp only [parseInt, hs, sign, if_true, decimal_toDigits, Option.bind_some, if_pos hn]
    rfl

/-! ## Pieces of a text -/

/-- `strings.Split(s, sep)`, for a separator of one byte. -/
def split (sep : Char) (s : String) : List String := (s.toList.splitOn sep).map String.ofList

/-- `strings.SplitN(s, sep, 2)`, when it has two pieces. -/
def splitTwo (sep : Char) (s : String) : Option (String × String) :=
  match s.toList.span (· ≠ sep) with
  | (_, []) => .none
  | (before, _ :: rest) => .some (.ofList before, .ofList rest)

/-- The white space of Unicode, as UTF-8 encodes it. -/
def spaces : List (List UInt8) :=
  [[0x09], [0x0a], [0x0b], [0x0c], [0x0d], [0x20], [0xc2, 0x85], [0xc2, 0xa0], [0xe1, 0x9a, 0x80],
    [0xe2, 0x80, 0x80], [0xe2, 0x80, 0x81], [0xe2, 0x80, 0x82], [0xe2, 0x80, 0x83], [0xe2, 0x80, 0x84],
    [0xe2, 0x80, 0x85], [0xe2, 0x80, 0x86], [0xe2, 0x80, 0x87], [0xe2, 0x80, 0x88], [0xe2, 0x80, 0x89],
    [0xe2, 0x80, 0x8a], [0xe2, 0x80, 0xa8], [0xe2, 0x80, 0xa9], [0xe2, 0x80, 0xaf], [0xe2, 0x81, 0x9f],
    [0xe3, 0x80, 0x80]]

/-- Drops the pieces that a text starts with, at most `n` of them. -/
def dropAll (pieces : List (List Char)) : Nat → List Char → List Char
  | 0, cs => cs
  | n + 1, cs =>
    match pieces.find? (·.isPrefixOf cs) with
    | .some piece => dropAll pieces n (cs.drop piece.length)
    | .none => cs

/-- `strings.TrimSpace`. -/
def trimSpace (s : String) : String :=
  let pieces := spaces.map fun bytes => (ofBytes bytes).toList
  let left := dropAll pieces s.length s.toList
  .ofList (dropAll (pieces.map List.reverse) left.length left.reverse).reverse

/-! ## Durations -/

/-- Why `time.ParseDuration` fails. -/
inductive DurationError where
  | invalid
  | missingUnit
  | unknownUnit (unit : String)
  deriving DecidableEq

/-- `unitMap`: the nanoseconds of each unit, the micro sign in both its
encodings. -/
def unitMap (unit : List Char) : Option Nat :=
  if unit = "ns".toList then .some 1
  else if unit = "us".toList ∨ unit = (ofBytes [0xc2, 0xb5, 0x73]).toList ∨
      unit = (ofBytes [0xce, 0xbc, 0x73]).toList then
    .some (10 ^ 3)
  else if unit = "ms".toList then .some (10 ^ 6)
  else if unit = "s".toList then .some (10 ^ 9)
  else if unit = "m".toList then .some (60 * 10 ^ 9)
  else if unit = "h".toList then .some (3600 * 10 ^ 9)
  else .none

/-- `leadingFraction`: digits past what fits are dropped. The value is the
first number over the second, which is none when it has become infinite. -/
def leadingFraction (cs : List Char) : Nat × Option Binary64 :=
  let (f, scale, _) := cs.foldl (fun (f, scale, overflow) c =>
    if overflow = true ∨ (2 ^ 63 - 1) / 10 < f ∨ 2 ^ 63 < 10 * f + (c.toNat - 48) then (f, scale, true)
    else (10 * f + (c.toNat - 48), scale.bind fun s => Binary64.round (10 * s.val), false))
    (0, Binary64.round 1, false)
  (f, scale)

/-- `uint64(float64(f) * (float64(unit) / scale))`, which is 0 over an infinite
scale. -/
def fractionOf (f unit : Nat) (scale : Option Binary64) : Nat :=
  let product := do
    let x ← Binary64.round f
    let y ← Binary64.round (unit / (← scale).val)
    Binary64.round (x.val * y.val)
  match product with
  | .some z => z.val.floor.toNat
  | .none => 0

/-- One round of the loop: a number with a unit, of which a fraction counts as
far as whole nanoseconds, and the rest of the text. -/
def durationTerm (cs : List Char) : Except DurationError (Nat × List Char) :=
  let digits := cs.takeWhile Char.isDigit
  let rest := cs.dropWhile Char.isDigit
  let fraction := match rest with
    | '.' :: rest => rest.takeWhile Char.isDigit
    | _ => []
  let rest := match rest with
    | '.' :: rest => rest.dropWhile Char.isDigit
    | rest => rest
  let v := Nat.ofDigitChars 10 digits 0
  let (f, scale) := leadingFraction fraction
  let unit := rest.takeWhile fun c => c ≠ '.' ∧ c.isDigit = false
  if 2 ^ 63 < v ∨ digits = [] ∧ fraction = [] then .error .invalid
  else if unit = [] then .error .missingUnit
  else match unitMap unit with
    | .none => .error (.unknownUnit (.ofList unit))
    | .some ns =>
      let v' := v * ns + fractionOf f ns scale
      if 2 ^ 63 / ns < v ∨ 2 ^ 63 < v' then .error .invalid
      else .ok (v', rest.drop unit.length)

/-- The loop, for a text of at most `n` bytes. -/
def durationTerms : Nat → Nat → List Char → Except DurationError Nat
  | _, d, [] => .ok d
  | 0, _, _ :: _ => .error .invalid
  | n + 1, d, c :: cs =>
    match durationTerm (c :: cs) with
    | .error err => .error err
    | .ok (v, rest) =>
      -- Twice the greatest term wraps to 0 and is not noticed.
      let d := (d + v) % 2 ^ 64
      if 2 ^ 63 < d then .error .invalid else durationTerms n d rest

/-- `time.ParseDuration`, in nanoseconds. -/
def parseDuration (s : String) : Except DurationError Int :=
  let (neg, cs) := sign s.toList
  if cs = ['0'] then .ok 0
  else if cs = [] then .error .invalid
  else match durationTerms cs.length 0 cs with
    | .error err => .error err
    | .ok d => if neg then .ok (-d) else if 2 ^ 63 - 1 < d then .error .invalid else .ok d

example : parseDuration "1h30m" = .ok (5400 * 10 ^ 9) := by decide +kernel

-- A third of an hour to 19 digits is a whole number of nanoseconds in floating point.
example : parseDuration "0.3333333333333333333h" = .ok (1200 * 10 ^ 9) := by decide +kernel

end Text
