import PeerMix.Lattice.Coding

/-!
# ML-KEM-768

A key encapsulation mechanism on vectors of three polynomials.  Encryption is
made deterministic: all randomness of a ciphertext comes from the message and
the key, so the holder of the secret key can redo it and detect a ciphertext
that was not made this way.
-/

namespace PeerMix
namespace Lattice

def rank : Nat := 3

def publicKeySize : Nat := 1184

def ciphertextSize : Nat := 1088

/-- A public key: a vector, transformed, and the seed of the matrix. -/
structure PublicKey where
  vector : List Poly
  matrixSeed : Bytes

structure SecretKey where
  /-- The secret vector, transformed. -/
  vector : List Poly
  publicKey : PublicKey
  /-- Answers ciphertexts that were not made by encapsulation. -/
  refusalKey : Bytes

/-! ## Encryption -/

def smallVector (key : Bytes) (counter : Nat) : List Poly :=
  (List.range rank).map fun i => small key (counter + i)

def matrixEntry (seed : Bytes) (i j : Nat) : Poly :=
  uniform (seed ++ [UInt8.ofNat j, UInt8.ofNat i])

namespace PublicKey

def toBytes (k : PublicKey) : Bytes :=
  k.vector.flatMap Poly.toBytes ++ k.matrixSeed

/-- Reads a key of the right size.  It is not checked further. -/
def ofBytes (bs : Bytes) : PublicKey :=
  { vector := (Bytes.pieces 384 (bs.take 1152)).map Poly.ofBytes
    matrixSeed := bs.drop 1152 }

def encrypt (k : PublicKey) (message coins : Bytes) : Bytes :=
  let y := (smallVector coins 0).map Poly.transform
  let column j := (List.range rank).map fun i => matrixEntry k.matrixSeed i j
  let u := List.zipWith (fun j e => (inner (column j) y).restore.add e)
    (List.range rank) (smallVector coins rank)
  let v := ((inner k.vector y).restore.add (small coins (2 * rank))).add
    (Poly.decompress 1 message)
  u.flatMap (Poly.compress 10) ++ Poly.compress 4 v

def digest (k : PublicKey) : Bytes :=
  Keccak.sha3_256 k.toBytes

end PublicKey

def SecretKey.decrypt (k : SecretKey) (ciphertext : Bytes) : Bytes :=
  let u := (Bytes.pieces 320 (ciphertext.take 960)).map (Poly.decompress 10)
  let v := Poly.decompress 4 (ciphertext.drop 960)
  Poly.compress 1 (v.sub (inner k.vector (u.map Poly.transform)).restore)

/-! ## Encapsulation -/

def generate (seed refusalKey : Bytes) : SecretKey :=
  let derived := Keccak.sha3_512 (seed ++ [UInt8.ofNat rank])
  let matrixSeed := derived.take 32
  let secret := (smallVector (derived.drop 32) 0).map Poly.transform
  let errors := (smallVector (derived.drop 32) rank).map Poly.transform
  let row i := (List.range rank).map fun j => matrixEntry matrixSeed i j
  let vector := List.zipWith (fun i e => (inner (row i) secret).add e) (List.range rank) errors
  { vector := secret, publicKey := { vector, matrixSeed }, refusalKey }

def derive (k : PublicKey) (message : Bytes) : Bytes × Bytes :=
  let derived := Keccak.sha3_512 (message ++ k.digest)
  (derived.take 32, derived.drop 32)

def PublicKey.encapsulate (k : PublicKey) (randomness : Bytes) : Bytes × Bytes :=
  let (secret, coins) := derive k randomness
  (k.encrypt randomness coins, secret)

/-- The secret in a ciphertext of the right size.  A ciphertext that does not
come out again when it is redone gives a secret that depends on it and on the
refusal key only. -/
def SecretKey.decapsulate (k : SecretKey) (ciphertext : Bytes) : Bytes :=
  let message := k.decrypt ciphertext
  let (secret, coins) := derive k.publicKey message
  if k.publicKey.encrypt message coins = ciphertext then secret
  else Keccak.shake256 (k.refusalKey ++ ciphertext) 32

end Lattice
end PeerMix
