import Cofferwire.Library.BigEndian
import Cofferwire.Library.Reader

namespace Cofferwire

abbrev Bytes := List UInt8

-- A byte array of fixed width, i.e. `[u8; n]`.
@[ext]
structure ByteVec (n : Nat) where
  toBytes : Bytes
  size    : toBytes.length = n
deriving DecidableEq, Repr

def ByteVec.replicate (n : Nat) (b : UInt8) : ByteVec n where
  toBytes := .replicate n b
  size    := List.length_replicate

-- A byte string of the right length is a byte array, i.e. `try_into`.
def ByteVec.tryFrom (n : Nat) (bytes : Bytes) : Option (ByteVec n) :=
  if h : bytes.length = n then some ⟨bytes, h⟩ else none

theorem ByteVec.tryFrom_eq_some {v : ByteVec n} : tryFrom n bytes = some v ↔ v.toBytes = bytes where
  mp h := by
    simp only [tryFrom] at h
    split at h <;> simp at h
    exact h ▸ rfl
  mpr h := by
    subst h
    simp [tryFrom, v.size]

-- The next bytes of an input as a byte array.
def ByteVec.read (n : Nat) (truncated : Nat → ε) (invalid : ε) : Reader ε UInt8 (ByteVec n) := do
  (tryFrom n (← Reader.take n truncated)).elim (throw invalid) pure

theorem ByteVec.read_recognizes (n : Nat) (truncated : Nat → ε) (invalid : ε) :
    Reader.Recognizes (read n truncated invalid) fun w bytes => w = bytes.toBytes := by
  refine ((Reader.Recognizes.take n truncated).bind fun bytes =>
    .elim (tryFrom n bytes) invalid).congr fun w a => ?_
  simp only [tryFrom_eq_some]
  constructor
  · rintro ⟨_, _, _, ⟨rfl, _⟩, ⟨rfl, rfl⟩, rfl⟩
    exact List.append_nil _
  · rintro rfl
    exact ⟨_, _, [], ⟨rfl, a.size⟩, ⟨rfl, rfl⟩, (List.append_nil _).symm⟩

-- The overflow-checked sum of two `u64`s.
def checkedAdd (a b : UInt64) : Option UInt64 :=
  if a.toNat + b.toNat < 2 ^ 64 then some (a + b) else none

theorem checkedAdd_eq_some : checkedAdd a b = some c ↔ a.toNat + b.toNat = c.toNat := by
  have hc := c.toNat_lt
  simp only [checkedAdd, Option.ite_none_right_eq_some, Option.some.injEq, ←UInt64.toNat_inj,
    UInt64.toNat_add]
  omega

theorem toNat_max (a b : UInt64) : (max a b).toNat = max a.toNat b.toNat := by
  have : max a b = if a ≤ b then b else a := rfl
  simp only [this, UInt64.le_iff_toNat_le]
  split <;> omega

def toBeBytes (value : UInt64) : ByteVec 8 where
  toBytes := BigEndian.encode 8 value.toNat
  size    := BigEndian.encode_length ..

def fromBeBytes (bytes : ByteVec 8) : UInt64 :=
  .ofNat (BigEndian.decode bytes.toBytes)

theorem fromBeBytes_toNat (bytes : ByteVec 8) :
    (fromBeBytes bytes).toNat = BigEndian.decode bytes.toBytes := by
  have h := BigEndian.decode_lt bytes.toBytes
  rw [bytes.size] at h
  simp only [fromBeBytes, UInt64.toNat_ofNat']
  omega

@[simp]
theorem fromBeBytes_toBeBytes (value : UInt64) : fromBeBytes (toBeBytes value) = value := by
  rw [←UInt64.toNat_inj, fromBeBytes_toNat]
  exact BigEndian.decode_encode value.toNat_lt

@[simp]
theorem toBeBytes_fromBeBytes (bytes : ByteVec 8) : toBeBytes (fromBeBytes bytes) = bytes := by
  ext1
  have h := BigEndian.encode_decode bytes.toBytes
  rw [bytes.size] at h
  simp [toBeBytes, fromBeBytes_toNat, h]

-- Big-endian timestamps compare bytewise as the numbers do.
theorem le_iff_fromBeBytes_le {b₁ b₂ : ByteVec 8} :
    b₁.toBytes ≤ b₂.toBytes ↔ fromBeBytes b₁ ≤ fromBeBytes b₂ := by
  rw [BigEndian.le_iff_decode_le (b₁.size.trans b₂.size.symm), UInt64.le_iff_toNat_le]
  simp only [fromBeBytes_toNat]

structure RequestId where fromBytes ::
  asBytes : ByteVec 16
deriving DecidableEq, Repr

structure QueueId where fromBytes ::
  asBytes : ByteVec 32
deriving DecidableEq, Repr

structure MessageId where fromBytes ::
  asBytes : ByteVec 32
deriving DecidableEq, Repr

structure Principal where fromBytes ::
  asBytes : ByteVec 32
deriving DecidableEq, Repr

-- Relay time in whole seconds.
abbrev Timestamp := UInt64

end Cofferwire
