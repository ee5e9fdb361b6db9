/-! Decoding bytes that need not be UTF-8: every longest run of bytes that could have begun a
character, but did not end as one, becomes one replacement character. -/
namespace PackEngine.Utf8

/-- A character of which some bytes are still owed. The next byte has to lie in the bounds. -/
structure Pending where
  owed : Nat
  low : Nat
  high : Nat
  value : Nat

def replacement : Char := '\uFFFD'

/-- What a first byte begins: a whole character, a longer one, or nothing. -/
inductive Start where
  | whole (c : Char)
  | longer (p : Pending)
  | invalid

def start (b : Nat) : Start :=
  if b < 0x80 then .whole (Char.ofNat b)
  else if b < 0xC2 then .invalid
  else if b < 0xE0 then .longer ⟨1, 0x80, 0xBF, b - 0xC0⟩
  else if b = 0xE0 then .longer ⟨2, 0xA0, 0xBF, 0⟩
  else if b = 0xED then .longer ⟨2, 0x80, 0x9F, 0xD⟩
  else if b < 0xF0 then .longer ⟨2, 0x80, 0xBF, b - 0xE0⟩
  else if b = 0xF0 then .longer ⟨3, 0x90, 0xBF, 0⟩
  else if b < 0xF4 then .longer ⟨3, 0x80, 0xBF, b - 0xF0⟩
  else if b = 0xF4 then .longer ⟨3, 0x80, 0x8F, 4⟩
  else .invalid

def Pending.push (p : Pending) (b : Nat) : Start :=
  let value := p.value * 64 + b % 64
  if p.owed ≤ 1 then .whole (Char.ofNat value) else .longer ⟨p.owed - 1, 0x80, 0xBF, value⟩

/-- The characters of the bytes that are left, after those that have been read, last one first. -/
def decodeFrom (done : List Char) : Option Pending → List UInt8 → List Char
  | none, [] => done.reverse
  | some _, [] => (replacement :: done).reverse
  | pending, b :: rest =>
      let fits := pending.any fun p => p.low ≤ b.toNat && b.toNat ≤ p.high
      let done := if pending.isSome && !fits then replacement :: done else done
      let next :=
        match pending with
        | some p => if fits then p.push b.toNat else start b.toNat
        | none => start b.toNat
      match next with
      | .whole c => decodeFrom (c :: done) none rest
      | .longer p => decodeFrom done (some p) rest
      | .invalid => decodeFrom (replacement :: done) none rest

def decode (bytes : ByteArray) : String := String.ofList (decodeFrom [] none bytes.toList)

end PackEngine.Utf8
