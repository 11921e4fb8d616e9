import SocksChain.Json.Value
import SocksChain.Text.Decimal
import SocksChain.Text.Hex

/-!
The tokens of a JSON text: brackets, marks, literals, numbers and strings, with four kinds of blank
between them. Every token takes at least one character off the front, so cutting a text into tokens
comes to an end.
-/

namespace SocksChain.Json

inductive Token where
  | openArray
  | closeArray
  | openObject
  | closeObject
  | comma
  | colon
  | null
  | bool (b : Bool)
  | number (x : Number)
  | string (s : Option String)

namespace Token

def isBlank (c : Char) : Bool := c = ' ' || c = '\n' || c = '\t' || c = '\r'

/-- A character that stands for itself, or a code unit of two bytes that was written in digits. -/
inductive Piece where
  | plain (c : Char)
  | unit (n : Nat)

/-- The characters of pieces; code units outside a surrogate pair stand for themselves, and half
of a pair stands for nothing. -/
def assemble : List Piece → Option (List Char)
  | [] => some []
  | .plain c :: rest => (assemble rest).map (c :: ·)
  | .unit n :: rest =>
    if n < 0xD800 || 0xDFFF < n then (assemble rest).map (Char.ofNat n :: ·)
    else
      match rest with
      | .unit m :: rest =>
        if n < 0xDC00 && 0xDC00 ≤ m && m ≤ 0xDFFF then
          (assemble rest).map (Char.ofNat (0x10000 + (n - 0xD800) * 0x400 + (m - 0xDC00)) :: ·)
        else none
      | _ => none

def unit? (a b c d : Char) : Option Nat := do
  let high := (← Text.Hex.digit? a) * 16 + (← Text.Hex.digit? b)
  let low := (← Text.Hex.digit? c) * 16 + (← Text.Hex.digit? d)
  return high * 256 + low

def escape? (c : Char) : Option Char :=
  [('"', '"'), ('\\', '\\'), ('/', '/'), ('b', '\x08'), ('f', '\x0c'), ('n', '\n'), ('r', '\r'),
    ('t', '\t')].lookup c

/-- The pieces up to the closing quote, the last one first, and what follows it. -/
def pieces (done : List Piece) : List Char → Option (List Piece × List Char)
  | [] => none
  | '"' :: rest => some (done, rest)
  | '\\' :: 'u' :: a :: b :: c :: d :: rest =>
    match unit? a b c d with
    | some n => pieces (.unit n :: done) rest
    | none => none
  | '\\' :: c :: rest =>
    match escape? c with
    | some e => pieces (.plain e :: done) rest
    | none => none
  | c :: rest => if c.toNat < 0x20 || c = '\\' then none else pieces (.plain c :: done) rest

def digit (c : Char) : Bool := (Text.Decimal.digit? c).isSome

/-- The digits at the front, and what follows them. -/
def digits (s : List Char) : List Char × List Char := (s.takeWhile digit, s.dropWhile digit)

def natural (ds : List Char) : Nat := (Text.Decimal.value? 0 ds).getD 0

/-- The digits before the point: one zero, or digits that do not start with zero. -/
def whole? (s : List Char) : Option (List Char × List Char) :=
  match s with
  | '0' :: rest => some (['0'], rest)
  | _ => if (digits s).1.isEmpty then none else some (digits s)

/-- The digits after a point, if there is one. -/
def fraction? (s : List Char) : Option (Option (List Char) × List Char) :=
  match s with
  | '.' :: rest => if (digits rest).1.isEmpty then none else some (some (digits rest).1, (digits rest).2)
  | _ => some (none, s)

def signed (s : List Char) : Bool × List Char :=
  match s with
  | '-' :: rest => (true, rest)
  | '+' :: rest => (false, rest)
  | _ => (false, s)

/-- The exponent, if there is one. -/
def exponent? (s : List Char) : Option (Option Int × List Char) :=
  match s with
  | c :: rest =>
    if c = 'e' || c = 'E' then
      let (negative, rest) := signed rest
      let (ds, rest) := digits rest
      if ds.isEmpty then none
      else
        let n : Int := natural ds
        some (some (if negative then -n else n), rest)
    else some (none, s)
  | [] => some (none, s)

/-- The number at the front, after its sign. -/
def number? (negative : Bool) (s : List Char) : Option (Token × List Char) := do
  let (w, s) ← whole? s
  let (f, s) ← fraction? s
  let (e, s) ← exponent? s
  let ds := f.getD []
  return (.number
    { negative
      digits := natural (w ++ ds)
      exponent := e.getD 0 - (ds.length : Int)
      plain := f.isNone && e.isNone }, s)

/-- The token at the front of a text that does not start with a blank. -/
def next? : List Char → Option (Token × List Char)
  | '[' :: rest => some (openArray, rest)
  | ']' :: rest => some (closeArray, rest)
  | '{' :: rest => some (openObject, rest)
  | '}' :: rest => some (closeObject, rest)
  | ',' :: rest => some (comma, rest)
  | ':' :: rest => some (colon, rest)
  | 'n' :: 'u' :: 'l' :: 'l' :: rest => some (null, rest)
  | 't' :: 'r' :: 'u' :: 'e' :: rest => some (bool true, rest)
  | 'f' :: 'a' :: 'l' :: 's' :: 'e' :: rest => some (bool false, rest)
  | '"' :: rest =>
    (pieces [] rest).map fun (ps, rest) =>
      (string ((assemble ps.reverse).map String.ofList), rest)
  | '-' :: rest => number? true rest
  | s => number? false s

theorem length_of_pieces {done ps : List Piece} {s rest : List Char}
    (h : pieces done s = some (ps, rest)) : rest.length < s.length := by
  fun_induction pieces done s with
  | case1 => cases h
  | case2 =>
    cases h
    simp
  | case3 done a b c d rest n hu ih =>
    have := ih h
    simp only [List.length_cons]
    omega
  | case4 => cases h
  | case5 done c rest hc e he ih =>
    have := ih h
    simp only [List.length_cons]
    omega
  | case6 => cases h
  | case7 => cases h
  | case8 done c rest _ _ _ _ ih =>
    have := ih h
    simp only [List.length_cons]
    omega

theorem length_digits_le (s : List Char) : (digits s).2.length ≤ s.length :=
  (List.dropWhile_sublist _).length_le

theorem length_of_whole? {s ds rest : List Char} (h : whole? s = some (ds, rest)) :
    rest.length < s.length := by
  unfold whole? at h
  split at h
  · cases h
    simp
  · split at h
    · cases h
    · rename_i hd
      cases h
      cases s with
      | nil => simp [digits] at hd
      | cons c s =>
        by_cases hc : digit c
        · simpa [digits, hc] using Nat.lt_succ_of_le (length_digits_le s)
        · simp [digits, hc] at hd

theorem length_of_fraction? {s rest : List Char} {f : Option (List Char)}
    (h : fraction? s = some (f, rest)) : rest.length ≤ s.length := by
  unfold fraction? at h
  split at h
  · split at h
    · cases h
    · cases h
      exact Nat.le_succ_of_le (length_digits_le _)
  · cases h
    exact Nat.le_refl _

theorem length_signed_le (s : List Char) : (signed s).2.length ≤ s.length := by
  unfold signed
  split <;> simp

theorem length_of_exponent? {s rest : List Char} {e : Option Int}
    (h : exponent? s = some (e, rest)) : rest.length ≤ s.length := by
  unfold exponent? at h
  split at h
  · rename_i c tail
    split at h
    · dsimp only at h
      split at h
      · cases h
      · cases h
        have h1 := length_digits_le (signed tail).2
        have h2 := length_signed_le tail
        simp only [List.length_cons]
        omega
    · cases h
      exact Nat.le_refl _
  · cases h
    exact Nat.le_refl _

theorem length_of_number? {negative : Bool} {s rest : List Char} {t : Token}
    (h : number? negative s = some (t, rest)) : rest.length < s.length := by
  simp only [number?, Option.bind_eq_bind, Option.bind_eq_some_iff, Option.pure_def] at h
  obtain ⟨⟨w, s1⟩, hw, ⟨f, s2⟩, hf, ⟨e, s3⟩, he, ht⟩ := h
  cases ht
  have h1 := length_of_whole? hw
  have h2 := length_of_fraction? hf
  have h3 := length_of_exponent? he
  dsimp only at h1 h2 h3 ⊢
  omega

theorem length_of_next? {s rest : List Char} {t : Token} (h : next? s = some (t, rest)) :
    rest.length < s.length := by
  unfold next? at h
  split at h
  iterate 6
    · cases h
      simp
  iterate 3
    · cases h
      simp only [List.length_cons]
      omega
  · obtain ⟨⟨ps, r⟩, hp, he⟩ := Option.map_eq_some_iff.mp h
    cases he
    have := length_of_pieces hp
    simp only [List.length_cons]
    omega
  · have := length_of_number? h
    simp only [List.length_cons]
    omega
  · exact length_of_number? h

end Token

/-- The tokens of a whole text. -/
def tokens (s : List Char) : Option (List Token) :=
  match s with
  | [] => some []
  | c :: rest =>
    if Token.isBlank c then tokens rest
    else
      match h : Token.next? (c :: rest) with
      | none => none
      | some (t, after) =>
        have : after.length < rest.length + 1 := Token.length_of_next? h
        (tokens after).map (t :: ·)
termination_by s.length
decreasing_by
  · simp only [List.length_cons]
    omega
  · simp only [List.length_cons]
    omega

end SocksChain.Json
