import SimplePresence.Text

/-!
How an identifier comes to be.

The sixteen bytes an object is constructed in are an argument here: they hold what the memory
held before. Each way to make an identifier is one write at the front of them, and what is left
behind it is what decides whether the identifier depends on the memory.
-/

namespace SimplePresence.Construct

open SimplePresence.Uid SimplePresence.Text

/-- `memset(&data[0], c, n)`. -/
def memset (u : UID) (c : UInt8) (n : ℕ) : UID := UID.write u 0 (List.replicate n c)

/-- `UID::UID()`. -/
def UID.default (prior : UID) : UID := memset prior 16 0

/-- The parser run for its effect on the object, what it returns being dropped. -/
def parsed (k : CharKind) (s : List UInt8) (v : UID) : Except Fault UID :=
  (parseString k s v).map Prod.snd

/-- `UID::operator =`. -/
def UID.assign (k : CharKind) (u : UID) (s : List UInt8) : Except Fault UID := parsed k s u

/-- `UID::UID(const char *)`. -/
def UID.ofText (k : CharKind) (prior : UID) (s : List UInt8) : Except Fault UID :=
  parsed k s prior

/-- The size of a `long`. -/
inductive LongSize
  | four
  | eight
  deriving DecidableEq, Repr

def LongSize.bytes : LongSize → ℕ
  | four => 4
  | eight => 8

/-- The bytes of an integer stored as a `long`, the lowest first. -/
def longBytes (w : LongSize) (n : ℕ) : List UInt8 :=
  (List.range w.bytes).map fun i => UInt8.ofNat (n / 256 ^ i)

/-- The `for` loop of `UID::generateRandom`; `draws` is what the distribution yields in turn. -/
def UID.generateRandom (w : LongSize) (draws : ℕ → ℕ) (u : UID) : UID :=
  (List.range 2).foldl (fun u i => UID.write u (i * w.bytes) (longBytes w (draws i))) u

/-! ### Each is one write -/

/-- The constructor asks for no byte to be set. -/
@[simp] lemma default_eq (prior : UID) : UID.default prior = prior := UID.write_nil prior 0

lemma parsed_eq (k : CharKind) (s : CString) (v : UID) :
    parsed k (terminated s.chars) v = .ok (UID.write v 0 (bytesOf s)) := by
  unfold parsed
  rw [parseString_eq]
  rfl

@[simp] lemma length_longBytes (w : LongSize) (n : ℕ) : (longBytes w n).length = w.bytes := by
  simp [longBytes]

lemma generateRandom_eq (w : LongSize) (draws : ℕ → ℕ) (u : UID) :
    UID.generateRandom w draws u =
      UID.write u 0 (longBytes w (draws 0) ++ longBytes w (draws 1)) := by
  rw [UID.write_append, length_longBytes, Nat.zero_add]
  show UID.write (UID.write u (0 * w.bytes) _) (1 * w.bytes) _ = _
  rw [Nat.zero_mul, Nat.one_mul]

/-! ### What is left of the memory -/

/-- Nothing of the memory shows in what is made in it. -/
def Forgets {α : Type} (make : UID → α) : Prop := ∀ p q, make p = make q

/-- Two memories agree from byte `n` on. -/
def AgreeFrom (n : ℕ) (p q : UID) : Prop := p.data.drop n = q.data.drop n

instance (n : ℕ) (p q : UID) : Decidable (AgreeFrom n p q) := inferInstanceAs (Decidable (_ = _))

lemma write_eq_iff {p q : UID} {bs : List UInt8} :
    UID.write p 0 bs = UID.write q 0 bs ↔ AgreeFrom bs.length p q := by
  rw [UID.ext_iff]
  exact Block.write_zero_eq_iff (UID.length_eq p q) bs

/-- All memories agree from a byte on exactly when it is past the last. -/
lemma forall_agreeFrom_iff {n : ℕ} : (∀ p q, AgreeFrom n p q) ↔ 16 ≤ n := by
  constructor
  · intro h
    by_contra hlt
    have hlen : (zeros.data.drop n).length ≠ 0 := by
      rw [List.length_drop, zeros.length_data]
      omega
    have hdrop : List.replicate (16 - n) (0 : UInt8) = List.replicate (16 - n) 1 := by
      have hagree := h zeros ones
      unfold AgreeFrom zeros ones at hagree
      rwa [List.drop_replicate, List.drop_replicate] at hagree
    obtain ⟨m, hm⟩ : ∃ m, 16 - n = m + 1 := ⟨16 - n - 1, by omega⟩
    rw [hm] at hdrop
    exact absurd (List.cons.inj hdrop).1 (by decide)
  · intro hn p q
    unfold AgreeFrom
    rw [List.drop_eq_nil_of_le (p.length_data.trans_le hn),
      List.drop_eq_nil_of_le (q.length_data.trans_le hn)]

/-- What depends on the memory from byte `n` on forgets it when `n` is past the last byte. -/
lemma forgets_iff {α : Type} {make : UID → α} {n : ℕ}
    (h : ∀ p q, make p = make q ↔ AgreeFrom n p q) : Forgets make ↔ 16 ≤ n := by
  rw [← forall_agreeFrom_iff]
  exact forall_congr' fun p => forall_congr' fun q => h p q

lemma parsed_eq_iff {k : CharKind} {s : CString} {p q : UID} :
    parsed k (terminated s.chars) p = parsed k (terminated s.chars) q ↔
      AgreeFrom (bytesOf s).length p q := by
  rw [parsed_eq, parsed_eq, ← write_eq_iff]
  exact ⟨Except.ok.inj, congrArg _⟩

/-- An identifier constructed and then assigned from text, as the client's is from its command
line. -/
def assigned (k : CharKind) (s : CString) (prior : UID) : Except Fault UID :=
  UID.assign k (UID.default prior) (terminated s.chars)

/-- An identifier constructed from text. -/
def constructed (k : CharKind) (s : CString) (prior : UID) : Except Fault UID :=
  UID.ofText k prior (terminated s.chars)

/-- An identifier constructed and then drawn, as the client's is without one. -/
def drawn (w : LongSize) (draws : ℕ → ℕ) (prior : UID) : UID :=
  UID.generateRandom w draws (UID.default prior)

lemma assigned_eq_iff {k : CharKind} {s : CString} (p q : UID) :
    assigned k s p = assigned k s q ↔ AgreeFrom (bytesOf s).length p q := by
  unfold assigned
  rw [default_eq, default_eq]
  exact parsed_eq_iff

lemma constructed_eq_iff {k : CharKind} {s : CString} (p q : UID) :
    constructed k s p = constructed k s q ↔ AgreeFrom (bytesOf s).length p q :=
  parsed_eq_iff

lemma drawn_eq_iff {w : LongSize} {draws : ℕ → ℕ} (p q : UID) :
    drawn w draws p = drawn w draws q ↔ AgreeFrom (2 * w.bytes) p q := by
  have hlen : (longBytes w (draws 0) ++ longBytes w (draws 1)).length = 2 * w.bytes := by
    rw [List.length_append, length_longBytes, length_longBytes]
    omega
  unfold drawn
  rw [generateRandom_eq, generateRandom_eq, default_eq, default_eq, write_eq_iff, hlen]

/-- **When an identifier forgets the memory** it was made in. Made from text, it comes out the
same in two memories exactly when they agree behind the bytes that the text yields, so it is
free of them for every text that yields sixteen and for no other. Drawn at random, it comes out
the same exactly when they agree behind two `long`s, so it is free of them where a `long` has
eight bytes. -/
theorem forgets_memory_iff (k : CharKind) (s : CString) (w : LongSize) (draws : ℕ → ℕ) :
    ((∀ p q, assigned k s p = assigned k s q ↔ AgreeFrom (bytesOf s).length p q) ∧
        (Forgets (assigned k s) ↔ 16 ≤ (bytesOf s).length)) ∧
      ((∀ p q, constructed k s p = constructed k s q ↔ AgreeFrom (bytesOf s).length p q) ∧
        (Forgets (constructed k s) ↔ 16 ≤ (bytesOf s).length)) ∧
      ((∀ p q, drawn w draws p = drawn w draws q ↔ AgreeFrom (2 * w.bytes) p q) ∧
        (Forgets (drawn w draws) ↔ w = .eight)) := by
  refine ⟨⟨assigned_eq_iff, forgets_iff assigned_eq_iff⟩,
    ⟨constructed_eq_iff, forgets_iff constructed_eq_iff⟩, ⟨drawn_eq_iff, ?_⟩⟩
  rw [forgets_iff drawn_eq_iff]
  cases w with
  | four => decide
  | eight => decide

/-- Text without a digit. -/
def noText : CString := ⟨[], by decide⟩

/-- It leaves the memory as it was, and an identifier drawn as two short `long`s keeps the last
eight bytes. -/
theorem memory_shows : assigned .signed noText zeros ≠ assigned .signed noText ones ∧
    constructed .signed noText zeros ≠ constructed .signed noText ones ∧
    drawn .four (fun _ => 0) zeros ≠ drawn .four (fun _ => 0) ones := by
  refine ⟨?_, ?_, ?_⟩
  · intro h
    exact absurd ((assigned_eq_iff zeros ones).mp h) (by decide)
  · intro h
    exact absurd ((constructed_eq_iff zeros ones).mp h) (by decide)
  · intro h
    exact absurd ((drawn_eq_iff zeros ones).mp h) (by decide)

end SimplePresence.Construct
