import SimplePresence.Uid

/-!
What the programs remember of a peer: its identifier, its socket address, and when it was
last heard of.

A clock reading is a number of nanoseconds. Every constructor of an item reads the clock
once; the reading is its first argument.
-/

namespace SimplePresence.Item

open SimplePresence.Uid

/-- `std::chrono::time_point<std::chrono::system_clock>`. -/
abbrev TaskTime := ℤ

/-- Clock ticks in a second. -/
def ticksPerSec : ℤ := 1000000000

/-- `std::chrono::duration_cast<std::chrono::seconds>`, which drops the fraction. -/
def seconds (d : ℤ) : ℤ := d.tdiv ticksPerSec

lemma seconds_le_iff {d n : ℤ} (hn : 0 ≤ n) : seconds d ≤ n ↔ d < (n + 1) * ticksPerSec := by
  unfold seconds ticksPerSec
  rcases le_or_gt 0 d with hd | hd
  · rw [Int.tdiv_eq_ediv_of_nonneg hd]
    omega
  · have hneg : 0 ≤ (-d).tdiv 1000000000 := Int.tdiv_nonneg (by omega) (by decide)
    rw [Int.neg_tdiv] at hneg
    omega

def sizeofSockaddr : ℕ := 16

/-- The bytes of a `struct sockaddr`. -/
@[ext]
structure Sockaddr where
  bytes : List UInt8
  size : bytes.length = sizeofSockaddr
  deriving DecidableEq, Repr

/-- A `struct sockaddr` moved from a buffer; what a short buffer lacks is zero. -/
def Sockaddr.ofBytes (buf : List UInt8) : Sockaddr :=
  ⟨buf.takeD sizeofSockaddr 0, List.takeD_length _ _ _⟩

lemma Sockaddr.length_bytes (a : Sockaddr) : a.bytes.length = 16 := a.size

lemma length_append_bytes (u : UID) (a : Sockaddr) : (u.data ++ a.bytes).length = 32 := by
  rw [List.length_append, u.length_data, a.length_bytes]

lemma Sockaddr.bytes_ofBytes {buf : List UInt8} (h : sizeofSockaddr ≤ buf.length) :
    (Sockaddr.ofBytes buf).bytes = buf.take sizeofSockaddr :=
  List.takeD_eq_take 0 h

@[simp] lemma Sockaddr.ofBytes_bytes (a : Sockaddr) : Sockaddr.ofBytes a.bytes = a :=
  Sockaddr.ext (by rw [bytes_ofBytes a.size.ge, List.take_of_length_le a.size.le])

@[ext]
structure PresenceItem where
  modified : TaskTime
  uid : UID
  addr : Sockaddr
  deriving DecidableEq, Repr

namespace PresenceItem

/-- `PresenceItem(const UID *, const struct sockaddr *)`. -/
def ofUidAddr (now : TaskTime) (aUid : UID) (aAddr : Sockaddr) : PresenceItem :=
  { modified := now, uid := aUid, addr := aAddr }

/-- `PresenceItem(void *)`. -/
def ofBuffer (now : TaskTime) (buffer : List UInt8) : PresenceItem :=
  { modified := now
    uid := UID.ofBytes buffer
    addr := Sockaddr.ofBytes (buffer.drop sizeUid) }

/-- A buffer that holds a `UID` and an address is read back as they were written. -/
@[simp] lemma ofBuffer_append (now : TaskTime) (u : UID) (a : Sockaddr) :
    ofBuffer now (u.data ++ a.bytes) = ofUidAddr now u a := by
  simp [ofBuffer, ofUidAddr, List.drop_left' u.size]

/-- The item made of thirty-two bytes holds all of them. -/
lemma data_ofBuffer (now : TaskTime) {buffer : List UInt8} (h : buffer.length = 32) :
    (ofBuffer now buffer).uid.data ++ (ofBuffer now buffer).addr.bytes = buffer := by
  have hu : (buffer.take 16).length = sizeUid := by simp [h, sizeUid]
  have ha : (buffer.drop 16).length = sizeofSockaddr := by simp [h, sizeofSockaddr]
  have hbuf : buffer = buffer.take 16 ++ buffer.drop 16 := (List.take_append_drop 16 buffer).symm
  have hitem := ofBuffer_append now ⟨buffer.take 16, hu⟩ ⟨buffer.drop 16, ha⟩
  rw [← hbuf] at hitem
  rw [hitem]
  exact hbuf.symm

end PresenceItem

end SimplePresence.Item
