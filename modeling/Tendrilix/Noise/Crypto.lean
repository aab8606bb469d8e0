import Tendrilix.Bytes
import Tendrilix.Noise.Errors

/-!
# The cryptographic primitives

The primitives come from third-party crates. A `Crypto` collects them with the lengths that their
array types fix. `Crypto.Lawful` states the two documented laws the handshake relies on.
-/

namespace Tendrilix.Noise

open Bytes

structure Crypto where
  Secret : Type
  publicKey : Secret → Bytes
  diffieHellman : Secret → Bytes → Bytes
  /-- BLAKE2s with a 32-byte digest. -/
  blake2s : Bytes → Bytes
  /-- HMAC over BLAKE2s, from the key and the message. -/
  hmac : Bytes → Bytes → Bytes
  /-- Keyed BLAKE2s with a 16-byte and with a 24-byte tag. -/
  mac16 : Bytes → Bytes → Bytes
  mac24 : Bytes → Bytes → Bytes
  /-- ChaCha20-Poly1305 in place with a detached tag: key, nonce, associated data, text. -/
  encrypt : Bytes → Bytes → Bytes → Bytes → Bytes × Bytes
  decrypt : Bytes → Bytes → Bytes → Bytes → Bytes → Option Bytes
  /-- XChaCha20-Poly1305, in the same shape. -/
  xencrypt : Bytes → Bytes → Bytes → Bytes → Bytes × Bytes
  xdecrypt : Bytes → Bytes → Bytes → Bytes → Bytes → Option Bytes
  length_publicKey : ∀ s, (publicKey s).length = 32
  length_blake2s : ∀ m, (blake2s m).length = 32
  length_hmac : ∀ k m, (hmac k m).length = 32
  length_mac16 : ∀ k m, (mac16 k m).length = 16
  length_mac24 : ∀ k m, (mac24 k m).length = 24
  length_encrypt : ∀ k n a m, (encrypt k n a m).1.length = m.length
  length_tag : ∀ k n a m, (encrypt k n a m).2.length = 16
  length_decrypt : ∀ k n a c t m, decrypt k n a c t = some m → m.length = c.length
  length_xencrypt : ∀ k n a m, (xencrypt k n a m).1.length = m.length
  length_xtag : ∀ k n a m, (xencrypt k n a m).2.length = 16

/-- Diffie-Hellman commutes, and decryption undoes encryption. -/
structure Crypto.Lawful (K : Crypto) : Prop where
  diffieHellman_comm : ∀ a b, K.diffieHellman a (K.publicKey b) = K.diffieHellman b (K.publicKey a)
  decrypt_encrypt : ∀ k n a m,
    K.decrypt k n a (K.encrypt k n a m).1 (K.encrypt k n a m).2 = some m
  xdecrypt_xencrypt : ∀ k n a m,
    K.xdecrypt k n a (K.xencrypt k n a m).1 (K.xencrypt k n a m).2 = some m

variable (K : Crypto)

def b2sHash (data1 data2 : Bytes) : Bytes := K.blake2s (data1 ++ data2)

def b2sHmac (key data1 : Bytes) : Bytes := K.hmac key data1

def b2sHmac2 (key data1 data2 : Bytes) : Bytes := K.hmac key (data1 ++ data2)

def b2sKeyedMac16 (key data1 : Bytes) : Bytes := K.mac16 key data1

def b2sKeyedMac16Two (key data1 data2 : Bytes) : Bytes := K.mac16 key (data1 ++ data2)

def b2sMac24 (key data1 : Bytes) : Bytes := K.mac24 key data1

/-- The nonce of a counter: four zero bytes, then the counter in little-endian order. -/
def nonceOf (counter : ℕ) : Bytes := zeros 4 ++ toLe 8 counter

def aeadChacha20Seal (key : Bytes) (counter : ℕ) (data aad : Bytes) : Bytes :=
  let (ciphertext, tag) := K.encrypt key (nonceOf counter) aad data
  ciphertext ++ tag

/-- `bufferLen` is the length of the buffer the ciphertext is copied to. -/
def aeadChacha20Open (bufferLen : ℕ) (key : Bytes) (counter : ℕ) (data aad : Bytes) :
    Call (Outcome Bytes) :=
  if data.length < 16 then .ok (.error .invalidAeadTag)
  else
    let ciphertext := data.take (data.length - 16)
    let tag := data.drop (data.length - 16)
    if ciphertext.length ≠ bufferLen then .error .lengthMismatch
    else
      match K.decrypt key (nonceOf counter) aad ciphertext tag with
      | some buffer => .ok (.ok buffer)
      | none => .ok (.error .invalidAeadTag)

theorem length_aeadChacha20Seal (key : Bytes) (counter : ℕ) (data aad : Bytes) :
    (aeadChacha20Seal K key counter data aad).length = data.length + 16 := by
  rw [aeadChacha20Seal, List.length_append, K.length_encrypt, K.length_tag]

theorem aeadChacha20Open_ok {K : Crypto} {bufferLen : ℕ} {key data aad buffer : Bytes} {counter : ℕ}
    (h : aeadChacha20Open K bufferLen key counter data aad = .ok (.ok buffer)) :
    K.decrypt key (nonceOf counter) aad (data.take (data.length - 16))
      (data.drop (data.length - 16)) = some buffer := by
  rw [aeadChacha20Open] at h
  split at h
  · cases h
  dsimp only at h
  split at h
  · cases h
  split at h
  · rename_i hdecrypt
    cases h
    exact hdecrypt
  · cases h

/-- Opening a sealed message with the same key, counter and associated data gives it back. -/
theorem aeadChacha20Open_seal {K : Crypto} (hK : K.Lawful) (key : Bytes) (counter : ℕ)
    (data aad : Bytes) :
    aeadChacha20Open K data.length key counter (aeadChacha20Seal K key counter data aad) aad =
      .ok (.ok data) := by
  have hlen := length_aeadChacha20Seal K key counter data aad
  have hct := K.length_encrypt key (nonceOf counter) aad data
  have htake : (aeadChacha20Seal K key counter data aad).take data.length =
      (K.encrypt key (nonceOf counter) aad data).1 := List.take_left' hct
  have hdrop : (aeadChacha20Seal K key counter data aad).drop data.length =
      (K.encrypt key (nonceOf counter) aad data).2 := List.drop_left' hct
  have hshort : ¬data.length + 16 < 16 := by omega
  rw [aeadChacha20Open, hlen, if_neg hshort, Nat.add_sub_cancel]
  simp only [htake, hdrop, hct, ne_eq, not_true_eq_false, if_false, hK.decrypt_encrypt]

/-! ### A small instance

Exponentiation modulo a prime, a polynomial hash, and a cipher whose tag names the key. It
evaluates, and shows on concrete runs that what is assumed of the primitives can be met. -/

namespace Sample

def prime : ℕ := 65537

def digest (m : Bytes) : ℕ := m.foldl (fun h b => (h * 263 + b.toNat + 1) % (2 ^ 61 - 1)) 7

def encrypt (k n a m : Bytes) : Bytes × Bytes :=
  (m, (k ++ zeros 8).take 8 ++ toLe 8 (digest (k ++ n ++ a ++ m)))

def decrypt (k n a c t : Bytes) : Option Bytes := if (encrypt k n a c).2 = t then some c else none

theorem length_encrypt (k n a m : Bytes) : (encrypt k n a m).1.length = m.length := rfl

theorem length_tag (k n a m : Bytes) : (encrypt k n a m).2.length = 16 := by
  simp [encrypt]

theorem length_decrypt (k n a c t m : Bytes) (h : decrypt k n a c t = some m) :
    m.length = c.length := by
  rw [decrypt] at h
  split at h
  · cases h
    rfl
  · cases h

theorem decrypt_encrypt (k n a m : Bytes) :
    decrypt k n a (encrypt k n a m).1 (encrypt k n a m).2 = some m := if_pos rfl

end Sample

def Crypto.sample : Crypto where
  Secret := ℕ
  publicKey s := toLe 32 (3 ^ s % Sample.prime)
  diffieHellman s pub := toLe 32 (ofLe pub ^ s % Sample.prime)
  blake2s m := toLe 32 (Sample.digest m)
  hmac k m := toLe 32 (Sample.digest (k ++ m))
  mac16 k m := toLe 16 (Sample.digest (k ++ m))
  mac24 k m := toLe 24 (Sample.digest (k ++ m))
  encrypt := Sample.encrypt
  decrypt := Sample.decrypt
  xencrypt := Sample.encrypt
  xdecrypt := Sample.decrypt
  length_publicKey _ := length_toLe _ _
  length_blake2s _ := length_toLe _ _
  length_hmac _ _ := length_toLe _ _
  length_mac16 _ _ := length_toLe _ _
  length_mac24 _ _ := length_toLe _ _
  length_encrypt := Sample.length_encrypt
  length_tag := Sample.length_tag
  length_decrypt := Sample.length_decrypt
  length_xencrypt := Sample.length_encrypt
  length_xtag := Sample.length_tag

instance : DecidableEq Crypto.sample.Secret := inferInstanceAs (DecidableEq ℕ)

theorem Sample.ofLe_publicKey (s : ℕ) :
    ofLe (toLe 32 (3 ^ s % Sample.prime)) = 3 ^ s % Sample.prime :=
  ofLe_toLe ((Nat.mod_lt _ (by decide)).trans (by decide))

theorem Crypto.sample_lawful : Crypto.sample.Lawful where
  diffieHellman_comm a b := by
    change ℕ at a b
    change toLe 32 (ofLe (toLe 32 (3 ^ b % Sample.prime)) ^ a % Sample.prime) =
      toLe 32 (ofLe (toLe 32 (3 ^ a % Sample.prime)) ^ b % Sample.prime)
    rw [Sample.ofLe_publicKey, Sample.ofLe_publicKey, ← Nat.pow_mod, ← Nat.pow_mod, ← pow_mul, ← pow_mul, mul_comm]
  decrypt_encrypt := Sample.decrypt_encrypt
  xdecrypt_xencrypt := Sample.decrypt_encrypt

end Tendrilix.Noise
