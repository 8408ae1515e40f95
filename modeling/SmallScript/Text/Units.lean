namespace SmallScript.Text.Units

def replacement : Char := '\ufffd'

def ofChar (c : Char) : List Nat :=
  if c.toNat < 0x10000 then [c.toNat]
  else [0xD800 + (c.toNat - 0x10000) / 0x400, 0xDC00 + (c.toNat - 0x10000) % 0x400]

def encode (s : List Char) : List Nat := s.flatMap ofChar

def isHigh (u : Nat) : Bool := decide (0xD800 ≤ u ∧ u < 0xDC00)

def isLow (u : Nat) : Bool := decide (0xDC00 ≤ u ∧ u < 0xE000)

def single (u : Nat) : Char :=
  if isHigh u || isLow u then replacement else Char.ofNat u

def pair (high low : Nat) : Char :=
  Char.ofNat (0x10000 + (high - 0xD800) * 0x400 + (low - 0xDC00))

/-- The characters of units; a surrogate without its partner is replaced. -/
def decode : List Nat → List Char
  | [] => []
  | [u] => [single u]
  | u :: v :: us =>
    if isHigh u && isLow v then pair u v :: decode us else single u :: decode (v :: us)

def ofString (s : String) : List Nat := encode s.toList

def length (s : String) : Nat := (ofString s).length

def at? (s : String) (i : Nat) : Option String :=
  (ofString s)[i]?.map fun u => String.singleton (single u)

def compare (s t : String) : Ordering := compareUnits (ofString s) (ofString t)
where
  compareUnits : List Nat → List Nat → Ordering
    | [], [] => .eq
    | [], _ :: _ => .lt
    | _ :: _, [] => .gt
    | u :: us, v :: vs => if u < v then .lt else if v < u then .gt else compareUnits us vs

theorem toNat_range (c : Char) :
    c.toNat < 0xD800 ∨ 0xDFFF < c.toNat ∧ c.toNat < 0x110000 :=
  c.valid

theorem isHigh_toNat (c : Char) : isHigh c.toNat = false := by
  have := toNat_range c
  simp [isHigh]
  omega

theorem isLow_toNat (c : Char) : isLow c.toNat = false := by
  have := toNat_range c
  simp [isLow]
  omega

theorem single_toNat (c : Char) : single c.toNat = c := by
  simp [single, isHigh_toNat, isLow_toNat]

theorem pair_toNat {c : Char} (h : 0x10000 ≤ c.toNat) :
    pair (0xD800 + (c.toNat - 0x10000) / 0x400) (0xDC00 + (c.toNat - 0x10000) % 0x400) = c := by
  unfold pair
  generalize hn : 0x10000 + _ + _ = n
  have : n = c.toNat := by omega
  rw [this, Char.ofNat_toNat]

theorem decode_ofChar_append (c : Char) (us : List Nat) :
    decode (ofChar c ++ us) = c :: decode us := by
  unfold ofChar
  split
  · cases us with
    | nil => simp [decode, single_toNat]
    | cons v us => simp [decode, isHigh_toNat, single_toNat]
  · rename_i h
    have := toNat_range c
    have hp : (isHigh (0xD800 + (c.toNat - 0x10000) / 0x400)
        && isLow (0xDC00 + (c.toNat - 0x10000) % 0x400)) = true := by
      simp only [isHigh, isLow, Bool.and_eq_true, decide_eq_true_eq]
      omega
    simp only [List.cons_append, List.nil_append, decode, if_pos hp,
      pair_toNat (Nat.le_of_not_lt h)]

theorem decode_encode (s : List Char) : decode (encode s) = s := by
  induction s with
  | nil => rfl
  | cons c s ih => rw [encode, List.flatMap_cons, decode_ofChar_append]; exact congrArg _ ih

end SmallScript.Text.Units
