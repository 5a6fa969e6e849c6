/-
  SolidFrame formalization — messages, message bundles and packet headers of the
  message passing service (`solid/frame/mpipc/mpipcmessage.hpp`,
  `mpipcprotocol.hpp`, `src/mpipcutility.hpp`, `src/mpipcprotocol.cpp`).
-/
import SolidFrame.Serialization.BinaryBasic

namespace SolidFrame

/-- The errors of the service; `other` are those of the serializers, the compression
    functions and the completion callbacks. -/
inductive MpipcError where
  | readerInvalidPacketHeader
  | readerInvalidMessageSwitch
  | readerTooManyMultiplex
  | other (code : ℕ)
  deriving DecidableEq, Repr

/-! ## Messages -/

/-- `MessageFlags`, a bit each. -/
structure MessageFlags where
  waitResponse : Bool := false
  synchronous : Bool := false
  idempotent : Bool := false
  oneShotSend : Bool := false
  startedSend : Bool := false
  doneSend : Bool := false
  canceled : Bool := false
  response : Bool := false
  deriving DecidableEq, Repr

/-- `MessageId` and `RequestId`; `none` is `InvalidIndex()`. -/
structure MessageId where
  index : Option ℕ := none
  unique : ℕ := 0
  deriving DecidableEq, Repr

/-- A message: what the base class holds, and the content. -/
structure Message (β : Type) where
  requid : MessageId := {}
  stt : ℕ := 0
  body : β
  deriving DecidableEq, Repr

def Message.isOnPeer {β : Type} (m : Message β) : Bool := m.stt == 1

/-- `MessageBundle`, over the contents `β` and the completion functions `F`. -/
structure MessageBundle (β F : Type) where
  messageTypeId : Option ℕ := none
  messageFlags : MessageFlags := {}
  messagePtr : Option (Message β) := none
  completeFnc : Option F := none
  deriving DecidableEq, Repr

namespace MessageBundle
variable {β F : Type}

/-- What `std::move` leaves behind. -/
def movedFrom (b : MessageBundle β F) : MessageBundle β F :=
  { b with messagePtr := none, completeFnc := none }

/-- `message_flags |= MessageFlags::Canceled`. -/
def setCanceled (b : MessageBundle β F) : MessageBundle β F :=
  { b with messageFlags := { b.messageFlags with canceled := true } }

end MessageBundle

/-! ## Packet headers -/

/-- `PacketHeader::Types`. -/
inductive PacketType where
  | switchToNewMessage
  | switchToOldMessage
  | continuedMessage
  | switchToOldCanceledMessage
  | continuedCanceledMessage
  | keepAlive
  deriving DecidableEq, Repr

namespace PacketType

def toByte : PacketType → Byte
  | switchToNewMessage => 1
  | switchToOldMessage => 2
  | continuedMessage => 3
  | switchToOldCanceledMessage => 4
  | continuedCanceledMessage => 5
  | keepAlive => 6

/-- The cases of a `switch` over a type that was read; `none` is `default`. -/
def ofByte? (b : Byte) : Option PacketType :=
  if b = 1 then some switchToNewMessage
  else if b = 2 then some switchToOldMessage
  else if b = 3 then some continuedMessage
  else if b = 4 then some switchToOldCanceledMessage
  else if b = 5 then some continuedCanceledMessage
  else if b = 6 then some keepAlive
  else none

@[simp] theorem ofByte?_toByte (t : PacketType) : ofByte? t.toByte = some t := by
  cases t <;> decide

end PacketType

structure PacketHeader where
  type : Byte
  flags : Byte
  size16 : ℕ
  deriving DecidableEq, Repr

def maxPacketDataSize : ℕ := 1024 * 64

namespace PacketHeader

def sizeOf : ℕ := 4

/-- `size()`: the low bit of the flags is the 17th bit of the size. -/
def size (h : PacketHeader) : ℕ := (h.flags.toNat &&& 1) <<< 16 ||| h.size16

def setSize (h : PacketHeader) (sz : ℕ) : PacketHeader :=
  { h with size16 := sz % 2 ^ 16, flags := h.flags ||| UInt8.ofNat ((sz >>> 16) % 2) }

/-- `flags(flags() | CompressedFlagE)`. -/
def setCompressed (h : PacketHeader) : PacketHeader := { h with flags := h.flags ||| 2 }

def isCompressed (h : PacketHeader) : Bool := h.flags &&& 2 != 0

def isTypeKeepAlive (h : PacketHeader) : Bool := h.type == PacketType.keepAlive.toByte

def isOk (h : PacketHeader) : Bool :=
  (PacketType.ofByte? h.type).isSome && decide (h.size ≤ maxPacketDataSize)

def store (h : PacketHeader) : List Byte := h.type :: h.flags :: store16 h.size16

/-- `load`; `none` when fewer than `SizeOfE` bytes are there to be read. -/
def load : List Byte → Option PacketHeader
  | t :: f :: ps => if 2 ≤ ps.length then some ⟨t, f, load16 ps⟩ else none
  | _ => none

theorem exists_load {ps : List Byte} (h : sizeOf ≤ ps.length) : ∃ hd, load ps = some hd := by
  obtain _ | ⟨t, _ | ⟨f, ps⟩⟩ := ps
  · exact absurd h (by decide)
  · exact absurd h (by simp [sizeOf])
  · have hlen : 2 ≤ ps.length := by simpa [sizeOf] using h
    exact ⟨_, by rw [load, if_pos hlen]⟩

/-- The header of a packet with `n` bytes of data. -/
def make (t : PacketType) (compressed : Bool) (n : ℕ) : PacketHeader :=
  (if compressed then setCompressed ⟨t.toByte, 0, 0⟩ else ⟨t.toByte, 0, 0⟩).setSize n

@[simp] theorem store_length (h : PacketHeader) : h.store.length = sizeOf := by
  simp [store, sizeOf]

theorem load_store {h : PacketHeader} (hlt : h.size16 < 2 ^ 16) (rest : List Byte) :
    load (h.store ++ rest) = some h := by
  have hlen : 2 ≤ (store16 h.size16 ++ rest).length := by simp
  rw [store, List.cons_append, List.cons_append, load, if_pos hlen, load16_store16 hlt]

section Make
variable (t : PacketType) (compressed : Bool) (n : ℕ)

theorem make_type : (make t compressed n).type = t.toByte := by
  cases compressed <;> rfl

theorem make_size16_lt : (make t compressed n).size16 < 2 ^ 16 := Nat.mod_lt _ (by decide)

theorem make_flags : (make t compressed n).flags =
    (if compressed then (2 : Byte) else 0) ||| UInt8.ofNat ((n >>> 16) % 2) := by
  cases compressed <;> simp [make, setCompressed, setSize]

theorem make_size (hn : n < 2 ^ 17) : (make t compressed n).size = n := by
  have hsize : (make t compressed n).size16 = n % 2 ^ 16 := by cases compressed <;> rfl
  have hbit : (make t compressed n).flags.toNat &&& 1 = n >>> 16 % 2 := by
    rw [make_flags]
    rcases Nat.mod_two_eq_zero_or_one (n >>> 16) with h | h <;> cases compressed <;>
      rw [h] <;> decide
  rw [size, hsize, hbit]
  have hshift : n >>> 16 = n / 2 ^ 16 := Nat.shiftRight_eq_div_pow n 16
  have hmod : n % 2 ^ 16 < 2 ^ 16 := Nat.mod_lt _ (by decide)
  rcases (by omega : n >>> 16 % 2 = 0 ∧ n / 2 ^ 16 = 0 ∨ n >>> 16 % 2 = 1 ∧ n / 2 ^ 16 = 1) with
    ⟨h, hdiv⟩ | ⟨h, hdiv⟩
  · rw [h, Nat.zero_shiftLeft, Nat.zero_or]
    omega
  · rw [h, Nat.shiftLeft_eq, Nat.one_mul, ← Nat.two_pow_add_eq_or_of_lt hmod 1]
    omega

theorem make_isOk (hn : n ≤ maxPacketDataSize) : (make t compressed n).isOk = true := by
  have hsize := make_size t compressed n (by simp only [maxPacketDataSize] at hn; omega)
  rw [isOk, hsize, make_type, PacketType.ofByte?_toByte]
  simpa using hn

end Make

end PacketHeader

end SolidFrame
