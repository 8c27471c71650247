import Dfmcp.Library.Machine

/-!
# Digests

`Digest32` and the SHA-256 of `digest.rs`, transcribed word for word: padding, message
schedule, compression. Only concrete counterexamples compute with it. Where a theorem needs
that two byte strings do not collide it says so about those two strings (`NoCollision`); an
injective 32-byte digest of all byte strings does not exist, so no theorem assumes one.
-/

namespace Dfmcp

open Machine

/-- Thirty-two bytes. -/
structure Digest32 where
  bytes : Bytes
  length_eq : bytes.length = 32
deriving DecidableEq

namespace Digest32

/-- The all-zero digest. -/
def zero : Digest32 := ⟨List.replicate 32 0, rfl⟩

/-- The digest with the given thirty-two bytes. -/
def fromBytes (bytes : Bytes) : Digest32 := if h : bytes.length = 32 then ⟨bytes, h⟩ else zero

theorem fromBytes_bytes (d : Digest32) : fromBytes d.bytes = d := dif_pos d.length_eq

theorem bytes_fromBytes {bytes : Bytes} (h : bytes.length = 32) : (fromBytes bytes).bytes = bytes := by
  rw [fromBytes, dif_pos h]

theorem bytes_injective : Function.Injective bytes := by
  rintro ⟨a, ha⟩ ⟨b, hb⟩ h
  obtain rfl : a = b := h
  rfl

/-- Digests are ordered by their bytes, which is the order of the numbers these spell. -/
def key (d : Digest32) : Nat := ofBe d.bytes

theorem key_injective : Function.Injective key := by
  intro a b h
  have hbytes : beBytes a.bytes.length (ofBe a.bytes) = beBytes b.bytes.length (ofBe b.bytes) := by
    rw [a.length_eq, b.length_eq]
    exact congrArg (beBytes 32) h
  rw [beBytes_ofBe, beBytes_ofBe] at hbytes
  exact bytes_injective hbytes

instance : LinearOrder Digest32 :=
  { PartialOrder.lift key key_injective with
    le_total := fun a b => le_total a.key b.key
    toDecidableLE := fun a b => inferInstanceAs (Decidable (a.key ≤ b.key))
    toDecidableLT := fun a b => inferInstanceAs (Decidable (a.key < b.key))
    toDecidableEq := inferInstance }

end Digest32

namespace Sha256

/-- The eight working words. -/
structure State where
  a : UInt32
  b : UInt32
  c : UInt32
  d : UInt32
  e : UInt32
  f : UInt32
  g : UInt32
  h : UInt32

def initial : State where
  a := 0x6a09e667
  b := 0xbb67ae85
  c := 0x3c6ef372
  d := 0xa54ff53a
  e := 0x510e527f
  f := 0x9b05688c
  g := 0x1f83d9ab
  h := 0x5be0cd19

def round : List UInt32 := [
  0x428a2f98, 0x71374491, 0xb5c0fbcf, 0xe9b5dba5, 0x3956c25b, 0x59f111f1, 0x923f82a4,
  0xab1c5ed5, 0xd807aa98, 0x12835b01, 0x243185be, 0x550c7dc3, 0x72be5d74, 0x80deb1fe,
  0x9bdc06a7, 0xc19bf174, 0xe49b69c1, 0xefbe4786, 0x0fc19dc6, 0x240ca1cc, 0x2de92c6f,
  0x4a7484aa, 0x5cb0a9dc, 0x76f988da, 0x983e5152, 0xa831c66d, 0xb00327c8, 0xbf597fc7,
  0xc6e00bf3, 0xd5a79147, 0x06ca6351, 0x14292967, 0x27b70a85, 0x2e1b2138, 0x4d2c6dfc,
  0x53380d13, 0x650a7354, 0x766a0abb, 0x81c2c92e, 0x92722c85, 0xa2bfe8a1, 0xa81a664b,
  0xc24b8b70, 0xc76c51a3, 0xd192e819, 0xd6990624, 0xf40e3585, 0x106aa070, 0x19a4c116,
  0x1e376c08, 0x2748774c, 0x34b0bcb5, 0x391c0cb3, 0x4ed8aa4a, 0x5b9cca4f, 0x682e6ff3,
  0x748f82ee, 0x78a5636f, 0x84c87814, 0x8cc70208, 0x90befffa, 0xa4506ceb, 0xbef9a3f7,
  0xc67178f2]

/-- Rust's `rotate_right`. -/
def rotateRight (x : UInt32) (n : UInt32) : UInt32 := (x >>> n) ||| (x <<< (32 - n))

/-- The message, a `0x80` byte, zeros up to 56 modulo 64, and the bit length. -/
def padded (input : Bytes) : Bytes :=
  input ++ 0x80 :: List.replicate ((119 - input.length % 64) % 64) 0 ++
    beBytes 8 (input.length * 8)

/-- The sixteen big-endian words of a 64-byte block. -/
def words (chunk : Bytes) : List UInt32 :=
  (List.range 16).map fun i => UInt32.ofNat (ofBe ((chunk.drop (4 * i)).take 4))

/-- Extend the sixteen words of a block to sixty-four. -/
def schedule (chunk : Bytes) : List UInt32 :=
  (List.range 48).foldl (fun ws i =>
    let index := i + 16
    let x := ws.getD (index - 15) 0
    let y := ws.getD (index - 2) 0
    let small0 := rotateRight x 7 ^^^ rotateRight x 18 ^^^ (x >>> 3)
    let small1 := rotateRight y 17 ^^^ rotateRight y 19 ^^^ (y >>> 10)
    ws ++ [ws.getD (index - 16) 0 + small0 + ws.getD (index - 7) 0 + small1]) (words chunk)

/-- One of the sixty-four rounds. -/
def compressRound (s : State) (k w : UInt32) : State :=
  let big1 := rotateRight s.e 6 ^^^ rotateRight s.e 11 ^^^ rotateRight s.e 25
  let choose := (s.e &&& s.f) ^^^ (~~~s.e &&& s.g)
  let temp1 := s.h + big1 + choose + k + w
  let big0 := rotateRight s.a 2 ^^^ rotateRight s.a 13 ^^^ rotateRight s.a 22
  let majority := (s.a &&& s.b) ^^^ (s.a &&& s.c) ^^^ (s.b &&& s.c)
  let temp2 := big0 + majority
  { a := temp1 + temp2, b := s.a, c := s.b, d := s.c
    e := s.d + temp1, f := s.e, g := s.f, h := s.g }

/-- Absorb one block. -/
def compress (s : State) (chunk : Bytes) : State :=
  let t := (round.zip (schedule chunk)).foldl (fun t kw => compressRound t kw.1 kw.2) s
  { a := s.a + t.a, b := s.b + t.b, c := s.c + t.c, d := s.d + t.d
    e := s.e + t.e, f := s.f + t.f, g := s.g + t.g, h := s.h + t.h }

/-- The state after the whole padded message. -/
def absorb (input : Bytes) : State :=
  let message := padded input
  (List.range (message.length / 64)).foldl
    (fun s i => compress s ((message.drop (64 * i)).take 64)) initial

end Sha256

/-- SHA-256. -/
@[irreducible] def sha256 (input : Bytes) : Digest32 :=
  let s := Sha256.absorb input
  ⟨[s.a, s.b, s.c, s.d, s.e, s.f, s.g, s.h].flatMap fun w => beBytes 4 w.toNat, rfl⟩

/-- The digest of a byte string. -/
def Digest32.ofBytes (bytes : Bytes) : Digest32 := sha256 bytes

/-- The digest tells these two byte strings apart. -/
def NoCollision (a b : Bytes) : Prop := Digest32.ofBytes a = Digest32.ofBytes b → a = b

theorem NoCollision.of_eq {a b : Bytes} (h : a = b) : NoCollision a b := fun _ => h

end Dfmcp
