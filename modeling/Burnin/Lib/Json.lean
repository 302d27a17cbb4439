/-
JSON as Go's package `encoding/json` reads it: a decoder takes the first value
off a stream of bytes and stores it in a structure.

`parse` reads the value and does not look at what follows it. A value is stored
by the fields of the structure (`Field`, `store`): a key without a field is
passed over, `null` changes nothing but a pointer, and a value of the wrong type
is an error that is noted while the decoding goes on, so that an error may leave
a structure half filled.

The elements of an array or an object are bounded by the bytes that are left,
which is never too little: `value_unbounded`.
-/
import Burnin.Lib.Binary64
import Burnin.Lib.Text

namespace Json

/-! ## Bytes -/

/-- The length of the UTF-8 encoding that a text starts with, 0 when it starts
with none. -/
def runeLength (bs : List UInt8) : Nat :=
  let tail (b : UInt8) : Bool := 0x80 ≤ b && b ≤ 0xbf
  match bs with
  | [] => 0
  | b :: bs =>
    if b < 0x80 then 1
    else if 0xc2 ≤ b ∧ b ≤ 0xdf then
      match bs with
      | b1 :: _ => if tail b1 then 2 else 0
      | _ => 0
    else if 0xe0 ≤ b ∧ b ≤ 0xef then
      match bs with
      | b1 :: b2 :: _ =>
        -- Neither a longer encoding than needed nor a surrogate.
        if tail b1 && tail b2 && !(b == 0xe0 && b1 < 0xa0) && !(b == 0xed && 0x9f < b1) then 3 else 0
      | _ => 0
    else if 0xf0 ≤ b ∧ b ≤ 0xf4 then
      match bs with
      | b1 :: b2 :: b3 :: _ =>
        if tail b1 && tail b2 && tail b3 && !(b == 0xf0 && b1 < 0x90) &&
          !(b == 0xf4 && 0x8f < b1) then 4 else 0
      | _ => 0
    else 0

/-- The replacement character, U+FFFD. -/
def replacement : List UInt8 := [0xef, 0xbf, 0xbd]

/-- A text of at most `n` bytes with every byte replaced that is not part of an
encoding. -/
def coerce : Nat → List UInt8 → List UInt8
  | 0, bs => bs
  | _ + 1, [] => []
  | n + 1, b :: bs =>
    match runeLength (b :: bs) with
    | 0 => replacement ++ coerce n bs
    | k + 1 => (b :: bs).take (k + 1) ++ coerce n (bs.drop k)

/-- The UTF-8 encoding of a code point that is not a surrogate. -/
def encodeRune (n : Nat) : List UInt8 :=
  if n < 0x80 then [.ofNat n]
  else if n < 0x800 then [.ofNat (0xc0 + n / 64), .ofNat (0x80 + n % 64)]
  else if n < 0x10000 then
    [.ofNat (0xe0 + n / 4096), .ofNat (0x80 + n / 64 % 64), .ofNat (0x80 + n % 64)]
  else
    [.ofNat (0xf0 + n / 262144), .ofNat (0x80 + n / 4096 % 64), .ofNat (0x80 + n / 64 % 64),
      .ofNat (0x80 + n % 64)]

def isDigit (b : UInt8) : Bool := 0x30 ≤ b && b ≤ 0x39

def isSpace (b : UInt8) : Bool := b == 0x20 || b == 0x09 || b == 0x0a || b == 0x0d

def skipSpace (bs : List UInt8) : List UInt8 := bs.dropWhile isSpace

def hexDigit (b : UInt8) : Option Nat :=
  if isDigit b then .some (b.toNat - 0x30)
  else if 0x61 ≤ b ∧ b ≤ 0x66 then .some (b.toNat - 0x61 + 10)
  else if 0x41 ≤ b ∧ b ≤ 0x46 then .some (b.toNat - 0x41 + 10)
  else .none

/-- The number of the four hexadecimal digits of an escape. -/
def hex4 (a b c d : UInt8) : Option Nat := do
  let a ← hexDigit a
  let b ← hexDigit b
  let c ← hexDigit c
  let d ← hexDigit d
  return ((a * 16 + b) * 16 + c) * 16 + d

/-! ## Values -/

/-- A number as it is written: its sign, the digits before and after the point,
and the exponent. -/
structure Number where
  neg : Bool
  int : List UInt8
  frac : Option (List UInt8)
  exp : Option Int
  deriving DecidableEq

inductive Value where
  | null
  | bool (b : Bool)
  | num (n : Number)
  | str (s : List UInt8)
  | arr (items : List Value)
  | obj (members : List (List UInt8 × Value))

/-- The value of a row of digits. -/
def digits (bs : List UInt8) : Nat := bs.foldl (fun n b => 10 * n + (b.toNat - 0x30)) 0

/-- The value of the digits of an exponent, as `strconv` reads them: from 10000
on it takes no more of them. -/
def exponent (bs : List UInt8) : Nat :=
  bs.foldl (fun n b => if n < 10000 then 10 * n + (b.toNat - 0x30) else n) 0

namespace Number

/-- `strconv.ParseInt(s, 10, bits)` of the literal. -/
def toInt (n : Number) (bits : Nat) : Option Int :=
  let i : Int := if n.neg then -digits n.int else digits n.int
  if n.frac = .none ∧ n.exp = .none ∧ -2 ^ (bits - 1) ≤ i ∧ i < 2 ^ (bits - 1) then .some i else .none

/-- `strconv.ParseFloat(s, 64)` of the literal, none when it is out of range. -/
def toFloat (n : Number) : Option Binary64 :=
  let frac := n.frac.getD []
  let q : ℚ := (digits (n.int ++ frac) : ℚ) * 10 ^ (n.exp.getD 0 - frac.length)
  Binary64.round (if n.neg then -q else q)

-- A hundred and a little is a hundred, and 1e-400 is 0.
example : (toFloat ⟨false, [0x31, 0x30, 0x30], .some (.replicate 14 0x30 ++ [0x31]), .none⟩).map
    (·.val) = .some 100 := by
  decide +kernel
example : (toFloat ⟨false, [0x31], .none, .some (-400)⟩).map (·.val) = .some 0 := by decide +kernel

end Number

/-! ## Reading -/

/-- One or more digits. -/
def digitRow (bs : List UInt8) : Option (List UInt8 × List UInt8) :=
  let row := bs.takeWhile isDigit
  if row = [] then .none else .some (row, bs.dropWhile isDigit)

/-- The whole part of a number: a zero alone, or digits that start with no
zero. -/
def intPart (bs : List UInt8) : Option (List UInt8 × List UInt8) :=
  match bs with
  | 0x30 :: bs => .some ([0x30], bs)
  | bs => digitRow bs

/-- A point and digits, if there is a point. -/
def fracPart (bs : List UInt8) : Option (Option (List UInt8) × List UInt8) :=
  match bs with
  | 0x2e :: bs => (digitRow bs).map fun (row, bs) => (.some row, bs)
  | bs => .some (.none, bs)

/-- An exponent, if there is one. -/
def expPart (bs : List UInt8) : Option (Option Int × List UInt8) :=
  match bs with
  | [] => .some (.none, [])
  | b :: bs =>
    if b = 0x65 ∨ b = 0x45 then
      match bs with
      | 0x2d :: bs => (digitRow bs).map fun (row, bs) => (.some (-exponent row), bs)
      | 0x2b :: bs => (digitRow bs).map fun (row, bs) => (.some (exponent row), bs)
      | bs => (digitRow bs).map fun (row, bs) => (.some (exponent row), bs)
    else .some (.none, b :: bs)

def number (bs : List UInt8) : Option (Value × List UInt8) := do
  let (neg, bs) := match bs with
    | 0x2d :: bs => (true, bs)
    | bs => (false, bs)
  let (int, bs) ← intPart bs
  let (frac, bs) ← fracPart bs
  let (exp, bs) ← expPart bs
  return (.num { neg, int, frac, exp }, bs)

/-- What an escape of one letter stands for. -/
def escape (b : UInt8) : Option UInt8 :=
  match b with
  | 0x22 | 0x5c | 0x2f => .some b
  | 0x62 => .some 0x08
  | 0x66 => .some 0x0c
  | 0x6e => .some 0x0a
  | 0x72 => .some 0x0d
  | 0x74 => .some 0x09
  | _ => .none

/-- Bytes before the ones that were read. -/
def before (s : List UInt8) (read : List UInt8 × List UInt8) : List UInt8 × List UInt8 :=
  (s ++ read.1, read.2)

/-- The rest of a string after its opening quote. An escaped pair of surrogates
is one code point; a surrogate alone is replaced. -/
def stringTail : List UInt8 → Option (List UInt8 × List UInt8)
  | [] => .none
  | 0x22 :: bs => .some ([], bs)
  | 0x5c :: 0x75 :: a :: b :: c :: d :: bs =>
    match hex4 a b c d with
    | .none => .none
    | .some n =>
      if 0xd800 ≤ n ∧ n < 0xe000 then
        match bs with
        | 0x5c :: 0x75 :: a' :: b' :: c' :: d' :: bs' =>
          match hex4 a' b' c' d' with
          | .none => .none
          | .some n' =>
            if n < 0xdc00 ∧ 0xdc00 ≤ n' ∧ n' < 0xe000 then
              (stringTail bs').map (before (encodeRune (0x10000 + (n - 0xd800) * 1024 + (n' - 0xdc00))))
            else (stringTail (0x5c :: 0x75 :: a' :: b' :: c' :: d' :: bs')).map (before replacement)
        | bs => (stringTail bs).map (before replacement)
      else (stringTail bs).map (before (encodeRune n))
  | 0x5c :: b :: bs =>
    match escape b with
    | .none => .none
    | .some e => (stringTail bs).map (before [e])
  | b :: bs => if b < 0x20 ∨ b = 0x5c then .none else (stringTail bs).map (before [b])

/-- A string after its opening quote. -/
def string (bs : List UInt8) : Option (List UInt8 × List UInt8) :=
  (stringTail bs).map fun (s, rest) => (coerce s.length s, rest)

/-- A word of letters. -/
def word (w : List UInt8) (v : Value) (bs : List UInt8) : Option (Value × List UInt8) :=
  if w.isPrefixOf bs then .some (v, bs.drop w.length) else .none

/-- A value that is neither an array nor an object. -/
def scalar (bs : List UInt8) : Option (Value × List UInt8) :=
  match bs with
  | [] => .none
  | b :: bs =>
    if b = 0x22 then (string bs).map fun (s, bs) => (.str s, bs)
    else if b = 0x2d ∨ isDigit b then number (b :: bs)
    else if b = 0x74 then word [0x72, 0x75, 0x65] (.bool true) bs
    else if b = 0x66 then word [0x61, 0x6c, 0x73, 0x65] (.bool false) bs
    else if b = 0x6e then word [0x75, 0x6c, 0x6c] .null bs
    else .none

section
variable {α : Type}

/-- The elements of an array or an object up to its closing bracket, at most `n`
of them; only an empty one may close where an element could start. -/
def elements (element : List UInt8 → Option (α × List UInt8)) (close : UInt8) :
    Nat → Bool → List UInt8 → Option (List α × List UInt8)
  | 0, _, _ => .none
  | n + 1, first, bs =>
    match skipSpace bs with
    | [] => .none
    | b :: bs =>
      if first = true ∧ b = close then .some ([], bs)
      else
        match element (b :: bs) with
        | .none => .none
        | .some (a, bs) =>
          match skipSpace bs with
          | [] => .none
          | b :: bs =>
            if b = close then .some ([a], bs)
            else if b = 0x2c then (elements element close n false bs).map fun (as, bs) => (a :: as, bs)
            else .none

/-- A key, a colon and a value. -/
def member (value : List UInt8 → Option (α × List UInt8)) :
    List UInt8 → Option ((List UInt8 × α) × List UInt8)
  | 0x22 :: bs =>
    match string bs with
    | .none => .none
    | .some (key, bs) =>
      match skipSpace bs with
      | 0x3a :: bs => (value bs).map fun (a, bs) => ((key, a), bs)
      | _ => .none
  | _ => .none

end

/-- A value with at most `depth` arrays and objects one in the other. An element
is at least one byte. -/
def value : Nat → List UInt8 → Option (Value × List UInt8)
  | 0, bs => scalar (skipSpace bs)
  | depth + 1, bs =>
    match skipSpace bs with
    | 0x5b :: bs =>
      (elements (value depth) 0x5d (bs.length + 1) true bs).map fun (vs, bs) => (.arr vs, bs)
    | 0x7b :: bs =>
      (elements (member (value depth)) 0x7d (bs.length + 1) true bs).map fun (ms, bs) => (.obj ms, bs)
    | bs => scalar bs

/-- `maxNestingDepth`. -/
def maxNestingDepth : Nat := 10000

/-- The first value of a stream, and the rest. -/
def parse (bs : List UInt8) : Option (Value × List UInt8) := value maxNestingDepth bs

/-! ## What is read is used up -/

theorem length_skipSpace_le (bs : List UInt8) : (skipSpace bs).length ≤ bs.length :=
  (List.dropWhile_suffix _).length_le

theorem length_lt_of_digitRow {bs row rest : List UInt8} (h : digitRow bs = .some (row, rest)) :
    rest.length < bs.length := by
  rw [digitRow, Option.ite_none_left_eq_some] at h
  obtain ⟨hne, h⟩ := h
  cases h
  have hlen := congrArg List.length (List.takeWhile_append_dropWhile (p := isDigit) (l := bs))
  have hpos := List.length_pos_of_ne_nil hne
  rw [List.length_append] at hlen
  omega

theorem length_lt_of_intPart {bs int rest : List UInt8} (h : intPart bs = .some (int, rest)) :
    rest.length < bs.length := by
  unfold intPart at h
  split at h
  · cases h
    exact Nat.lt_succ_self _
  · exact length_lt_of_digitRow h

theorem length_le_of_fracPart {bs rest : List UInt8} {frac : Option (List UInt8)}
    (h : fracPart bs = .some (frac, rest)) : rest.length ≤ bs.length := by
  unfold fracPart at h
  split at h
  · obtain ⟨⟨row, rest'⟩, hrow, h⟩ := Option.map_eq_some_iff.mp h
    cases h
    have hlt := length_lt_of_digitRow hrow
    rw [List.length_cons]
    omega
  · cases h
    exact Nat.le_refl _

theorem length_le_of_expPart {bs rest : List UInt8} {exp : Option Int}
    (h : expPart bs = .some (exp, rest)) : rest.length ≤ bs.length := by
  have hrow : ∀ (f : List UInt8 → Option Int) (bs' : List UInt8),
      ((digitRow bs').map fun (row, bs) => (f row, bs)) = .some (exp, rest) →
        rest.length < bs'.length := by
    intro f bs' h
    obtain ⟨⟨row, rest'⟩, hrow, h⟩ := Option.map_eq_some_iff.mp h
    cases h
    exact length_lt_of_digitRow hrow
  unfold expPart at h
  split at h
  · cases h
    exact Nat.le_refl _
  · split at h
    · split at h
      · have hlt := hrow (fun row => .some (-exponent row)) _ h
        simp only [List.length_cons]
        omega
      · have hlt := hrow (fun row => .some (exponent row)) _ h
        simp only [List.length_cons]
        omega
      · have hlt := hrow (fun row => .some (exponent row)) _ h
        simp only [List.length_cons]
        omega
    · cases h
      exact Nat.le_refl _

theorem length_lt_of_number {bs rest : List UInt8} {v : Value} (h : number bs = .some (v, rest)) :
    rest.length < bs.length := by
  simp only [number, Option.bind_eq_bind, Option.bind_eq_some_iff, Prod.exists] at h
  obtain ⟨int, bs₁, hint, frac, bs₂, hfrac, exp, bs₃, hexp, h⟩ := h
  cases h
  have hle := length_lt_of_intPart hint
  have hfrac := length_le_of_fracPart hfrac
  have hexp := length_le_of_expPart hexp
  split at hle
  · rw [List.length_cons]
    dsimp only at hle
    omega
  · dsimp only at hle
    omega

theorem length_lt_of_stringTail {bs s rest : List UInt8} (h : stringTail bs = .some (s, rest)) :
    rest.length < bs.length := by
  -- In every case but the first it reads on with fewer bytes.
  have hon : ∀ {bs' bs x s : List UInt8}, (stringTail bs').map (before x) = .some (s, rest) →
      (∀ {s}, stringTail bs' = .some (s, rest) → rest.length < bs'.length) → bs' <:+ bs →
      rest.length < bs.length := by
    intro bs' bs x s h ih hbs
    obtain ⟨⟨s', rest'⟩, hs, h⟩ := Option.map_eq_some_iff.mp h
    cases h
    exact Nat.lt_of_lt_of_le (ih hs) hbs.length_le
  fun_induction stringTail bs generalizing s with
  | case1 => cases h
  | case2 bs =>
    cases h
    exact Nat.lt_succ_self _
  | case3 => cases h
  | case4 => cases h
  | case5 a b c d n hn hs a' b' c' d' bs n' hn' hs' ih =>
    exact hon h ih ⟨[0x5c, 0x75, a, b, c, d, 0x5c, 0x75, a', b', c', d'], rfl⟩
  | case6 a b c d n hn hs a' b' c' d' bs n' hn' hs' ih => exact hon h ih ⟨[0x5c, 0x75, a, b, c, d], rfl⟩
  | case7 a b c d n hn hs bs hbs ih => exact hon h ih ⟨[0x5c, 0x75, a, b, c, d], rfl⟩
  | case8 a b c d bs n hn hs ih => exact hon h ih ⟨[0x5c, 0x75, a, b, c, d], rfl⟩
  | case9 => cases h
  | case10 b bs hb e he ih => exact hon h ih ⟨[0x5c, b], rfl⟩
  | case11 => cases h
  | case12 b bs hquote hescape hletter hlow ih => exact hon h ih ⟨[b], rfl⟩

theorem length_lt_of_string {bs s rest : List UInt8} (h : string bs = .some (s, rest)) :
    rest.length < bs.length := by
  obtain ⟨⟨s', rest'⟩, hs, h⟩ := Option.map_eq_some_iff.mp h
  cases h
  exact length_lt_of_stringTail hs

theorem length_le_of_word {w bs rest : List UInt8} {v v' : Value} (h : word w v bs = .some (v', rest)) :
    rest.length ≤ bs.length := by
  rw [word, Option.ite_none_right_eq_some] at h
  obtain ⟨-, h⟩ := h
  cases h
  rw [List.length_drop]
  omega

theorem length_lt_of_scalar {bs rest : List UInt8} {v : Value} (h : scalar bs = .some (v, rest)) :
    rest.length < bs.length := by
  unfold scalar at h
  split at h
  · cases h
  · next b bs =>
    rw [List.length_cons]
    split at h
    · obtain ⟨⟨s, rest'⟩, hs, h⟩ := Option.map_eq_some_iff.mp h
      cases h
      have hlt := length_lt_of_string hs
      omega
    · split at h
      · exact length_lt_of_number h
      · have hword : ∀ {w : List UInt8} {u : Value}, word w u bs = .some (v, rest) →
            rest.length < bs.length + 1 :=
          fun h => Nat.lt_succ_of_le (length_le_of_word h)
        split at h
        · exact hword h
        · split at h
          · exact hword h
          · split at h
            · exact hword h
            · cases h

theorem length_lt_of_skipSpace {bs bs' : List UInt8} {b : UInt8} (h : skipSpace bs = b :: bs') :
    bs'.length < bs.length := by
  have hle := length_skipSpace_le bs
  rw [h, List.length_cons] at hle
  omega

section
variable {α : Type} {element : List UInt8 → Option (α × List UInt8)} {close : UInt8}

/-- What reads leaves fewer bytes. -/
def Shortens (read : List UInt8 → Option (α × List UInt8)) : Prop :=
  ∀ bs a rest, read bs = .some (a, rest) → rest.length < bs.length

theorem Shortens.elements (h : Shortens element) (n : Nat) (first : Bool) :
    Shortens (elements element close n first) := by
  intro bs as rest hread
  induction n generalizing first bs as with
  | zero =>
    rw [Json.elements] at hread
    cases hread
  | succ n ih =>
    unfold Json.elements at hread
    split at hread
    · cases hread
    · next b bs₁ hbs₁ =>
      have hlt₁ := length_lt_of_skipSpace hbs₁
      split at hread
      · cases hread
        exact hlt₁
      · split at hread
        · cases hread
        · next a bs₂ ha =>
          have hlt₂ := h _ _ _ ha
          rw [List.length_cons] at hlt₂
          split at hread
          · cases hread
          · next b' bs₃ hbs₃ =>
            have hlt₃ := length_lt_of_skipSpace hbs₃
            split at hread
            · cases hread
              omega
            · split at hread
              · obtain ⟨⟨as', rest'⟩, hrest, hread⟩ := Option.map_eq_some_iff.mp hread
                cases hread
                have hlt := ih _ _ _ hrest
                omega
              · cases hread

theorem Shortens.member (h : Shortens element) : Shortens (member element) := by
  intro bs a rest hread
  unfold Json.member at hread
  split at hread
  · next bs =>
    split at hread
    · cases hread
    · next key bs₁ hkey =>
      have hlt₁ := length_lt_of_string hkey
      split at hread
      · next bs₂ hbs₂ =>
        have hlt₂ := length_lt_of_skipSpace hbs₂
        obtain ⟨⟨v, rest'⟩, hv, hread⟩ := Option.map_eq_some_iff.mp hread
        cases hread
        have hlt := h _ _ _ hv
        rw [List.length_cons]
        omega
      · cases hread
  · cases hread

/-- Past the number of bytes, one more call reads the same. -/
theorem elements_stable (h : Shortens element) {n : Nat} {first : Bool} {bs : List UInt8}
    (hn : bs.length < n) :
    elements element close (n + 1) first bs = elements element close n first bs := by
  induction n generalizing first bs with
  | zero => exact absurd hn (Nat.not_lt_zero _)
  | succ n ih =>
    rw [elements, elements]
    split
    · rfl
    · next b bs₁ hbs₁ =>
      have hlt₁ := length_lt_of_skipSpace hbs₁
      split
      · rfl
      · split
        · rfl
        · next a bs₂ ha =>
          have hlt₂ := h _ _ _ ha
          rw [List.length_cons] at hlt₂
          split
          · rfl
          · next b' bs₃ hbs₃ =>
            have hlt₃ := length_lt_of_skipSpace hbs₃
            rw [ih (by omega)]

theorem elements_of_le (h : Shortens element) {n m : Nat} {first : Bool} {bs : List UInt8}
    (hn : bs.length < n) (hm : n ≤ m) :
    elements element close m first bs = elements element close n first bs := by
  induction m, hm using Nat.le_induction with
  | base => rfl
  | succ m hm ih => rw [elements_stable h (Nat.lt_of_lt_of_le hn hm), ih]

end

theorem shortens_value (depth : Nat) : Shortens (value depth) := by
  have hscalar : ∀ {bs v rest}, scalar (skipSpace bs) = .some (v, rest) → rest.length < bs.length := by
    intro bs v rest h
    have hlt := length_lt_of_scalar h
    have hle := length_skipSpace_le bs
    omega
  induction depth with
  | zero =>
    intro bs v rest h
    exact hscalar h
  | succ depth ih =>
    intro bs v rest h
    unfold value at h
    split at h
    · next bs₁ hbs₁ =>
      have hlt₁ := length_lt_of_skipSpace hbs₁
      obtain ⟨⟨vs, rest'⟩, hvs, h⟩ := Option.map_eq_some_iff.mp h
      cases h
      have hlt := ih.elements _ _ _ _ _ hvs
      omega
    · next bs₁ hbs₁ =>
      have hlt₁ := length_lt_of_skipSpace hbs₁
      obtain ⟨⟨ms, rest'⟩, hms, h⟩ := Option.map_eq_some_iff.mp h
      cases h
      have hlt := ih.member.elements _ _ _ _ _ hms
      omega
    · exact hscalar h

/-- **The bound on the elements is no bound**: with any other one that is at
least the number of bytes, the same value is read. -/
theorem value_unbounded (depth : Nat) {n : Nat} {bs : List UInt8} (hn : bs.length ≤ n) :
    value (depth + 1) bs =
      match skipSpace bs with
      | 0x5b :: bs => (elements (value depth) 0x5d (n + 1) true bs).map fun (vs, bs) => (.arr vs, bs)
      | 0x7b :: bs =>
        (elements (member (value depth)) 0x7d (n + 1) true bs).map fun (ms, bs) => (.obj ms, bs)
      | bs => scalar bs := by
  have hshort := shortens_value depth
  unfold value
  split
  · next bs₁ hbs₁ =>
    have hlt := length_lt_of_skipSpace hbs₁
    rw [elements_of_le hshort (Nat.lt_succ_self bs₁.length) (by omega : bs₁.length + 1 ≤ n + 1)]
  · next bs₁ hbs₁ =>
    have hlt := length_lt_of_skipSpace hbs₁
    rw [elements_of_le hshort.member (Nat.lt_succ_self bs₁.length) (by omega : bs₁.length + 1 ≤ n + 1)]
  · rfl

/-! ## Storing -/

/-- Where a value goes in a structure: what is left of the structure, and
whether the value was of the wrong type. -/
structure Field (α : Type) where
  name : String
  store : Value → α → α × Bool

/-- The bytes of a name. -/
def bytes (s : String) : List UInt8 := s.toList.map fun c => .ofNat c.toNat

/-- A text through `json.Marshal` and `json.Unmarshal`. -/
def copyText (s : String) : String := Text.ofBytes (coerce s.length (bytes s))

/-- `foldName`, as far as it tells names of ASCII letters from other keys: there
are two letters beyond ASCII that fold to one, U+017F and U+212A. -/
def foldName : List UInt8 → List UInt8
  | [] => []
  | 0xc5 :: 0xbf :: bs => 0x53 :: foldName bs
  | 0xe2 :: 0x84 :: 0xaa :: bs => 0x4b :: foldName bs
  | b :: bs => (if 0x61 ≤ b ∧ b ≤ 0x7a then b - 0x20 else b) :: foldName bs

variable {α β : Type}

/-- The field of a key: the one of that name, else one of that name but for the
case of its letters. -/
def findField (fields : List (Field α)) (key : List UInt8) : Option (Field α) :=
  (fields.find? fun f => bytes f.name = key).or
    (fields.find? fun f => foldName (bytes f.name) = foldName key)

/-- One member of an object. -/
def storeMember (fields : List (Field α)) (st : α × Bool) (m : List UInt8 × Value) : α × Bool :=
  match findField fields m.1 with
  | .none => st
  | .some f =>
    let (a, bad) := f.store m.2 st.1
    (a, st.2 || bad)

/-- A value into a structure. -/
def store (fields : List (Field α)) : Value → α → α × Bool
  | .null, a => (a, false)
  | .obj ms, a => ms.foldl (storeMember fields) (a, false)
  | _, a => (a, true)

namespace Field

def string (name : String) (set : String → α → α) : Field α where
  name
  store
    | .null, a => (a, false)
    | .str s, a => (set (Text.ofBytes s) a, false)
    | _, a => (a, true)

def bool (name : String) (set : Bool → α → α) : Field α where
  name
  store
    | .null, a => (a, false)
    | .bool b, a => (set b a, false)
    | _, a => (a, true)

/-- An integer of so many bits. -/
def int (name : String) (bits : Nat) (set : Int → α → α) : Field α where
  name
  store
    | .null, a => (a, false)
    | .num n, a =>
      match n.toInt bits with
      | .some i => (set i a, false)
      | .none => (a, true)
    | _, a => (a, true)

def float (name : String) (set : ℚ → α → α) : Field α where
  name
  store
    | .null, a => (a, false)
    | .num n, a =>
      match n.toFloat with
      | .some x => (set x.val a, false)
      | .none => (a, true)
    | _, a => (a, true)

/-- A structure in the structure. -/
def struct (name : String) (get : α → β) (set : β → α → α) (fields : List (Field β)) : Field α where
  name
  store v a :=
    let (b, bad) := Json.store fields v (get a)
    (set b a, bad)

/-- A pointer to a structure: it is allocated before the value is looked at, and
an existing one is stored into. -/
def pointer (name : String) (get : α → Option β) (set : Option β → α → α) (zero : β)
    (fields : List (Field β)) : Field α where
  name
  store
    | .null, a => (set .none a, false)
    | v, a =>
      let (b, bad) := Json.store fields v ((get a).getD zero)
      (set (.some b) a, bad)

end Field

/-- `json.NewDecoder(body).Decode(&a)`: what is left in the structure, and
whether an error is returned. An error of syntax is found before anything is
stored. -/
def decode (fields : List (Field α)) (a : α) (body : List UInt8) : α × Bool :=
  match parse body with
  | .none => (a, true)
  | .some (v, _) => store fields v a

end Json
