import SimplePresence.Item
import SimplePresence.OrderedMap
import SimplePresence.Machine

/-!
The request protocol, over any store of items.

A request is sixteen bytes, the identifier of its sender, or thirty-two, the identifier of
its sender followed by the one it asks for. Either registers the sender. The reply to the
first is the sender with its own address; the reply to the second is the identifier asked
for with the address it is known by, or nothing.
-/

namespace SimplePresence.Query

open SimplePresence.Uid SimplePresence.Item SimplePresence.OrderedMap

/-- The two virtual methods of `Presence`. Each reads the clock once. -/
class Presence (σ : Type*) where
  /-- Whether an item was found, the item passed in as the method leaves it, and the store. -/
  get : σ → TaskTime → PresenceItem → Bool × PresenceItem × σ
  put : σ → TaskTime → PresenceItem → Except Fault σ

/-- What the clock reads as a request constructs its item, stores it, and looks one up. -/
structure Readings where
  ctor : TaskTime
  put : TaskTime
  get : TaskTime
  deriving DecidableEq, Repr

/-- The returned size, and the bytes written to the reply buffer from its start. -/
structure Answer where
  ret : ℕ
  retBuf : List UInt8
  deriving DecidableEq, Repr

section

variable {σ : Type*} [Presence σ]

/-- `Presence::query`. -/
def query (s : σ) (addr : Sockaddr) (buf : List UInt8) (now : Readings) :
    Except Fault (Answer × σ) :=
  if buf.length = 16 then
    let retBuf := buf.take sizeUid ++ addr.bytes
    let item := PresenceItem.ofUidAddr now.ctor (UID.ofBytes buf) addr
    match Presence.put s now.put item with
    | .error e => .error e
    | .ok s => .ok (⟨32, retBuf⟩, s)
  else if buf.length = 32 then
    let item := PresenceItem.ofUidAddr now.ctor (UID.ofBytes buf) addr
    match Presence.put s now.put item with
    | .error e => .error e
    | .ok s =>
      let retBuf := (buf.drop sizeUid).take sizeUid
      -- the item just stored is reused for the lookup, with its address and time in it
      let item := { item with uid := UID.ofBytes (buf.drop sizeUid) }
      match Presence.get s now.get item with
      | (false, _, s) => .ok (⟨0, retBuf⟩, s)
      | (true, item, s) => .ok (⟨32, retBuf ++ item.addr.bytes⟩, s)
  else .ok (⟨0, []⟩, s)

/-- `Presence::put(const unsigned char *, std::size_t)`. -/
def putBuf (s : σ) (buf : List UInt8) (ctor now : TaskTime) : Except Fault (Bool × σ) :=
  if buf.length = 32 then
    let item := PresenceItem.ofUidAddr ctor (UID.ofBytes buf) (Sockaddr.ofBytes (buf.drop sizeUid))
    match Presence.put s now item with
    | .error e => .error e
    | .ok s => .ok (true, s)
  else .ok (false, s)

/-! ### Requests -/

/-- A buffer that `query` registers the sender of. -/
def IsRequest (buf : List UInt8) : Prop := buf.length = 16 ∨ buf.length = 32

instance (buf : List UInt8) : Decidable (IsRequest buf) := inferInstanceAs (Decidable (_ ∨ _))

lemma query_other (s : σ) (addr : Sockaddr) {buf : List UInt8} (now : Readings)
    (h : ¬ IsRequest buf) : query s addr buf now = .ok (⟨0, []⟩, s) := by
  unfold IsRequest at h
  rw [query, if_neg (by omega), if_neg (by omega)]

section Spec

variable {s s' : σ} {addr : Sockaddr} {src dest : UID} {now : Readings} {a : Answer}

lemma query_ping : query s addr src.data now = .ok (a, s') ↔
    Presence.put s now.put (PresenceItem.ofUidAddr now.ctor src addr) = .ok s' ∧
      a = ⟨32, src.data ++ addr.bytes⟩ := by
  rw [query, if_pos src.length_data]
  simp only [UID.ofBytes_data, List.take_of_length_le src.size.le]
  cases Presence.put s now.put (PresenceItem.ofUidAddr now.ctor src addr) with
  | error e => simp
  | ok s₁ =>
    simp only [Except.ok.injEq, Prod.mk.injEq]
    rw [and_comm, eq_comm (b := a)]

/-- The reply to a lookup, from what the store answers. -/
def reply (dest : UID) (r : Bool × PresenceItem × σ) : Answer :=
  if r.1 then ⟨32, dest.data ++ r.2.1.addr.bytes⟩ else ⟨0, dest.data⟩

lemma query_lookup : query s addr (src.data ++ dest.data) now = .ok (a, s') ↔
    ∃ s₁, Presence.put s now.put (PresenceItem.ofUidAddr now.ctor src addr) = .ok s₁ ∧
      a = reply dest (Presence.get s₁ now.get (PresenceItem.ofUidAddr now.ctor dest addr)) ∧
      s' = (Presence.get s₁ now.get (PresenceItem.ofUidAddr now.ctor dest addr)).2.2 := by
  have hlen := src.length_append dest
  have hdrop : (src.data ++ dest.data).drop sizeUid = dest.data := List.drop_left' src.size
  rw [query, if_neg (by omega), if_pos hlen]
  simp only [hdrop, UID.ofBytes_append, UID.ofBytes_data, List.take_of_length_le dest.size.le]
  cases Presence.put s now.put (PresenceItem.ofUidAddr now.ctor src addr) with
  | error e => simp
  | ok s₁ =>
    have hitem : { PresenceItem.ofUidAddr now.ctor src addr with uid := dest } =
        PresenceItem.ofUidAddr now.ctor dest addr := rfl
    simp only [hitem, Except.ok.injEq, exists_eq_left']
    rcases Presence.get s₁ now.get (PresenceItem.ofUidAddr now.ctor dest addr) with
      ⟨_ | _, item, s₂⟩ <;> simp [reply, eq_comm]

end Spec

/-- A buffer of thirty-two bytes is two identifiers. -/
lemma exists_append_of_length {buf : List UInt8} (h : buf.length = 32) :
    ∃ src dest : UID, buf = src.data ++ dest.data :=
  ⟨⟨buf.take 16, by simp [h, sizeUid]⟩, ⟨buf.drop 16, by simp [h, sizeUid]⟩,
    (List.take_append_drop 16 buf).symm⟩

lemma exists_uid_of_length {buf : List UInt8} (h : buf.length = 16) :
    ∃ src : UID, buf = src.data :=
  ⟨⟨buf, h⟩, rfl⟩

/-- The three forms of a buffer, as `query` takes them apart. -/
lemma buf_cases (buf : List UInt8) :
    ¬ IsRequest buf ∨ (∃ src : UID, buf = src.data) ∨
      ∃ src dest : UID, buf = src.data ++ dest.data := by
  by_cases h16 : buf.length = 16
  · exact Or.inr (Or.inl (exists_uid_of_length h16))
  · by_cases h32 : buf.length = 32
    · exact Or.inr (Or.inr (exists_append_of_length h32))
    · exact Or.inl (by unfold IsRequest; omega)

lemma isRequest_ping (src : UID) : IsRequest src.data := Or.inl src.size

lemma isRequest_lookup (src dest : UID) : IsRequest (src.data ++ dest.data) :=
  Or.inr (src.length_append dest)

/-- The readings a request takes. -/
def Readings.taken (now : Readings) (buf : List UInt8) : List TaskTime :=
  if buf.length = 16 then [now.ctor, now.put]
  else if buf.length = 32 then [now.ctor, now.put, now.get]
  else []

lemma Readings.taken_ping (now : Readings) (src : UID) :
    now.taken src.data = [now.ctor, now.put] := if_pos src.size

lemma Readings.taken_lookup (now : Readings) (src dest : UID) :
    now.taken (src.data ++ dest.data) = [now.ctor, now.put, now.get] := by
  have hlen := src.length_append dest
  rw [taken, if_neg (by omega), if_pos hlen]

lemma Readings.taken_other (now : Readings) {buf : List UInt8} (h : ¬ IsRequest buf) :
    now.taken buf = [] := by
  unfold IsRequest at h
  rw [taken, if_neg (by omega), if_neg (by omega)]

end

/-! ### Calls of the virtual methods -/

/-- A call of one of the two methods, with the reading it takes. -/
inductive Op
  | put (item : PresenceItem) (now : TaskTime)
  | get (item : PresenceItem) (now : TaskTime)
  deriving DecidableEq, Repr

namespace Op

def reading : Op → TaskTime
  | .put _ now => now
  | .get _ now => now

/-- The answer of a call, and the store after it. -/
def step {σ : Type*} [Presence σ] (s : σ) : Op → Except Fault (Option (Bool × PresenceItem) × σ)
  | .put item now =>
    match Presence.put s now item with
    | .error e => .error e
    | .ok s => .ok (none, s)
  | .get item now =>
    let r := Presence.get s now item
    .ok (some (r.1, r.2.1), r.2.2)

/-- The item a call stores. -/
def stored : Op → Option PresenceItem
  | .put item _ => some item
  | .get _ _ => none

end Op

section

variable {σ : Type*} [Presence σ] {s s' : σ} {item : PresenceItem} {now : TaskTime}

lemma step_put {o : Option (Bool × PresenceItem)} :
    Op.step s (.put item now) = .ok (o, s') ↔ o = none ∧ Presence.put s now item = .ok s' := by
  rw [Op.step]
  cases Presence.put s now item with
  | error e => simp
  | ok s₁ => simp [eq_comm]

lemma step_get {o : Option (Bool × PresenceItem)} :
    Op.step s (.get item now) = .ok (o, s') ↔
      o = some ((Presence.get s now item).1, (Presence.get s now item).2.1) ∧
        s' = (Presence.get s now item).2.2 := by
  rw [Op.step]
  simp [eq_comm]

end

/-- The calls of a list, one after the other. -/
abbrev runOps {σ : Type*} [Presence σ] (s : σ) (ops : List Op) :=
  Machine.run Op.step s ops

/-- The item the last of some calls to store one for `u` stored. -/
def lastPut (ops : List Op) (u : UID) : Option PresenceItem :=
  (ops.filterMap Op.stored).reverse.find? fun item => item.uid = u

end SimplePresence.Query
