import SimplePresence.Construct
import SimplePresence.TextOrder
import SimplePresence.Service

/-!
The service as a directory.

A peer is named by the text its identifier is read from. What the service answers over a run
is what a directory of texts answers that is told of every request and forgets nothing: two
texts name one peer when they are read as the same sixteen bytes. What a short text leaves
unread of the memory it is read into is part of the name; texts of the printed form leave
nothing, and are one name when they are the same but for the case of their letters.
-/

namespace SimplePresence.Directory

open SimplePresence.Uid SimplePresence.Item SimplePresence.OrderedMap SimplePresence.Query
open SimplePresence.Store SimplePresence.Log SimplePresence.Machine SimplePresence.Service
open SimplePresence.Hex SimplePresence.Printed SimplePresence.TextOrder SimplePresence.Construct
open SimplePresence.Text (CharKind CString terminated bytesOf)

/-! ### Directories -/

/-- Who was where, and when. -/
@[ext]
structure Entry (N A : Type*) where
  name : N
  addr : A
  time : TaskTime

section Names

variable {N M A : Type*} [DecidableEq N] [DecidableEq M]

/-- Where `n` was last, when that is known for less than `life`; the last entry comes first. -/
def whereabouts (life : ℤ) (d : List (Entry N A)) (n : N) (now : TaskTime) : Option A :=
  (d.find? fun e => e.name = n).bind fun e => if now - e.time < life then some e.addr else none

/-- The same under another name. -/
def Entry.rename (f : N → M) (e : Entry N A) : Entry M A := ⟨f e.name, e.addr, e.time⟩

/-- A directory does not depend on how its names are spelled. -/
lemma whereabouts_rename {f : N → M} (hf : Function.Injective f) (life : ℤ)
    (d : List (Entry N A)) (n : N) (now : TaskTime) :
    whereabouts life (d.map (Entry.rename f)) (f n) now = whereabouts life d n now := by
  have hfind : (d.map (Entry.rename f)).find? (fun e => e.name = f n) =
      (d.find? fun e => e.name = n).map (Entry.rename f) := by
    rw [List.find?_map]
    refine congrArg (Option.map _) (congrArg (fun p => d.find? p) (funext fun e => ?_))
    exact decide_eq_decide.mpr hf.eq_iff
  unfold whereabouts
  rw [hfind]
  cases d.find? fun e => e.name = n <;> rfl

end Names

/-! ### Calls -/

/-- A text, and what the memory its identifier is read into held before. -/
structure Spelling where
  text : CString
  prior : UID

/-- A request of a peer named `source`: a ping, or a lookup of the peer named `asked`. -/
structure Call where
  source : Spelling
  asked : Option Spelling
  addr : Sockaddr
  now : Readings

/-- The bytes of the request. -/
def Call.request (k : CharKind) (c : Call) : Except Text.Fault Request := do
  let src ← assigned k c.source.text c.source.prior
  match c.asked with
  | none => .ok ⟨c.addr, src.data.take 16, c.now⟩
  | some t =>
    let dest ← assigned k t.text t.prior
    .ok ⟨c.addr, src.data ++ dest.data, c.now⟩

/-- A directory that is told of a call and answers it. -/
def consult {N : Type*} [DecidableEq N] (name : Spelling → N) (d : List (Entry N Sockaddr))
    (c : Call) : Except Fault (Option (N × Sockaddr) × List (Entry N Sockaddr)) :=
  let d := ⟨name c.source, c.addr, c.now.ctor⟩ :: d
  match c.asked with
  | none => .ok (some (name c.source, c.addr), d)
  | some t =>
    .ok ((whereabouts (181 * ticksPerSec) d (name t) c.now.get).map fun b => (name t, b), d)

/-- What a reply says, the identifier as it is printed. -/
def shown (a : Answer) : Option (List UInt8 × Sockaddr) :=
  if a.ret = 32 then
    let item := PresenceItem.ofBuffer 0 a.retBuf
    some (UID.toString item.uid, item.addr)
  else none

def uidOf (t : Spelling) : UID := Text.UID.write t.prior 0 (bytesOf t.text)

/-- What a text is read as, printed. -/
def nameOf (t : Spelling) : List UInt8 := UID.toString (uidOf t)

/-- Texts of the printed form, in either case. -/
def Call.Canonical (c : Call) : Prop :=
  IsUuid isDigit c.source.text.chars ∧ ∀ t, c.asked = some t → IsUuid isDigit t.text.chars

/-! ### The log of the requests -/

lemma assigned_eq (k : CharKind) (t : Spelling) : assigned k t.text t.prior = .ok (uidOf t) := by
  unfold assigned UID.assign
  rw [default_eq, parsed_eq]
  rfl

/-- The request, once its texts are read. -/
def Call.message (c : Call) : Request :=
  ⟨c.addr, (uidOf c.source).data ++ (c.asked.elim [] fun t => (uidOf t).data), c.now⟩

lemma request_eq (k : CharKind) (c : Call) : c.request k = .ok c.message := by
  obtain ⟨source, asked, addr, now⟩ := c
  unfold Call.request Call.message
  rw [assigned_eq]
  cases asked with
  | none =>
    show Except.ok (Request.mk addr _ now) = .ok (Request.mk addr _ now)
    rw [List.take_of_length_le (uidOf source).length_data.le, Option.elim_none,
      List.append_nil]
  | some t =>
    show ((assigned k t.text t.prior).bind fun dest => _) = _
    rw [assigned_eq]
    rfl

lemma requests_eq {k : CharKind} {cs : List Call} {rs : List Request}
    (h : cs.mapM (Call.request k) = .ok rs) : rs = cs.map Call.message := by
  have hpure : Call.request k = fun c => pure c.message := funext fun c => request_eq k c
  rw [hpure, List.mapM_pure] at h
  exact (Except.ok.inj h).symm

/-- What a log says, under the printed forms of its identifiers. -/
def entries (l : PresenceLog) : List (Entry (List UInt8) Sockaddr) :=
  (l.items.map fun it => (⟨it.uid, it.addr, it.modified⟩ : Entry UID Sockaddr)).map
    (Entry.rename UID.toString)

lemma entries_put (l : PresenceLog) (now : TaskTime) (u : UID) (a : Sockaddr) :
    entries ⟨PresenceItem.ofUidAddr now u a :: l.items⟩ = ⟨UID.toString u, a, now⟩ :: entries l :=
  rfl

lemma whereabouts_entries (l : PresenceLog) (u : UID) (now : TaskTime) (life : ℤ) :
    whereabouts life (entries l) (UID.toString u) now =
      (l.last u).bind fun it => if now - it.modified < life then some it.addr else none := by
  unfold entries
  rw [whereabouts_rename fun _ _ => toString_inj.mp]
  unfold whereabouts
  rw [List.find?_map, Option.bind_map]
  rfl

lemma shown_record (u : UID) (b : Sockaddr) :
    shown ⟨32, u.data ++ b.bytes⟩ = some (UID.toString u, b) := by
  unfold shown
  rw [if_pos rfl, PresenceItem.ofBuffer_append]
  rfl

/-- What a log replies to a lookup is what a directory says. -/
lemma shown_reply (l : PresenceLog) (now : TaskTime) {u : UID} {item : PresenceItem}
    (h : item.uid = u) : shown (reply u (Presence.get l now item)) =
      (whereabouts (181 * ticksPerSec) (entries l) (UID.toString u) now).map fun b =>
        (UID.toString u, b) := by
  subst h
  rw [whereabouts_entries]
  unfold reply
  rcases hlast : l.last item.uid with _ | it
  · rw [log_get_none hlast]
    rfl
  · rw [Option.bind_some]
    cases he : (recOf it).expired now
    · have hlate : now - it.modified < 181 * ticksPerSec := expired_eq_false_iff.mp he
      rw [log_get_live hlast he, if_pos hlate]
      exact shown_record item.uid it.addr
    · have hold : ¬ now - it.modified < 181 * ticksPerSec := by
        intro hlt
        have hlive : (recOf it).expired now = false := expired_eq_false_iff.mpr hlt
        rw [he] at hlive
        cases hlive
      rw [log_get_expired hlast he, if_neg hold]
      rfl

/-- **A call of the directory** is a request to the log. -/
lemma consult_eq_handle (l : PresenceLog) (c : Call) :
    consult nameOf (entries l) c =
      (handle l c.message).map fun r => (shown r.1, entries r.2) := by
  obtain ⟨source, asked, addr, now⟩ := c
  let l₁ : PresenceLog := ⟨PresenceItem.ofUidAddr now.ctor (uidOf source) addr :: l.items⟩
  unfold consult Call.message handle
  cases asked with
  | none =>
    have hping : query l addr (uidOf source).data now =
        .ok (⟨32, (uidOf source).data ++ addr.bytes⟩, l₁) := query_ping.mpr ⟨rfl, rfl⟩
    rw [Option.elim_none, List.append_nil, hping]
    exact congrArg (fun x => Except.ok (x, _)) (shown_record (uidOf source) addr).symm
  | some t =>
    have hlookup : query l addr ((uidOf source).data ++ (uidOf t).data) now =
        .ok (reply (uidOf t) (Presence.get l₁ now.get
          (PresenceItem.ofUidAddr now.ctor (uidOf t) addr)), l₁) :=
      query_lookup.mpr ⟨l₁, rfl, rfl, (log_get_store l₁ _ _).symm⟩
    have hshown : shown (reply (uidOf t) (Presence.get l₁ now.get
        (PresenceItem.ofUidAddr now.ctor (uidOf t) addr))) = _ := shown_reply l₁ now.get rfl
    rw [entries_put] at hshown
    rw [Option.elim_some, hlookup]
    dsimp only [Except.map]
    rw [hshown, entries_put]
    rfl

/-! ### Texts of the printed form -/

lemma nameOf_canonical {t : Spelling} (h : IsUuid isDigit t.text.chars) :
    nameOf t = t.text.chars.map lower := by
  obtain ⟨u, hread, hprint⟩ := toString_parseString .signed h t.prior
  rw [Text.parseString_eq] at hread
  obtain ⟨-, rfl⟩ := Prod.mk.inj (Except.ok.inj hread)
  exact hprint

/-- Names that agree on the texts of a call make one directory. -/
lemma consult_congr {name name' : Spelling → List UInt8} {c : Call}
    (hsource : name c.source = name' c.source) (hasked : ∀ t, c.asked = some t → name t = name' t)
    (d : List (Entry (List UInt8) Sockaddr)) : consult name d c = consult name' d c := by
  unfold consult
  rw [hsource]
  cases h : c.asked with
  | none => rfl
  | some t =>
    dsimp only
    rw [hasked t h]

/-- **The service is a directory.** Take any run of calls on an empty store, with a clock that
never runs backwards and every cleaning pass defined. The service answers as a directory that
is told of all of them, forgets nothing and says where a name was last, unless that is 181 s
ago; the name of a peer is its text as it is read and printed, into whatever memory it is read.
When all texts have the printed form, it is the text itself in small letters. -/
theorem directory_by_text (k : CharKind) (cs : List Call) (rs : List Request)
    (hrs : cs.mapM (Call.request k) = .ok rs)
    (hclock : (rs.flatMap Request.readings).Pairwise (· ≤ ·)) (as : List Answer) (s : MemPresence)
    (h : serve MemPresence.empty rs = .ok (as, s)) :
    (∃ d, run (consult nameOf) [] cs = .ok (as.map shown, d)) ∧
      ((∀ c ∈ cs, c.Canonical) →
        ∃ d, run (consult fun t => t.text.chars.map lower) [] cs = .ok (as.map shown, d)) := by
  obtain rfl := requests_eq hrs
  obtain ⟨t, ht⟩ := exists_pairwise_cons hclock
  have hlog := (serve_tracks ht h).1
  have hrun : run (consult nameOf) [] cs =
      (serve PresenceLog.empty (cs.map Call.message)).map fun r =>
        (r.1.map shown, entries r.2) :=
    run_map Call.message shown entries (fun c _ l => consult_eq_handle l c) PresenceLog.empty
  rw [hlog] at hrun
  refine ⟨⟨_, hrun⟩, fun hform => ?_⟩
  refine ⟨_, (run_congr fun c hc d => ?_).trans hrun⟩
  obtain ⟨hsource, hasked⟩ := hform c hc
  exact (consult_congr (nameOf_canonical hsource) (fun t h => nameOf_canonical (hasked t h)) d).symm

/-- The text of the printed form that has one digit throughout. -/
def spelled (c : UInt8) : List UInt8 :=
  [dash].intercalate ([8, 4, 4, 4, 12].map fun n => List.replicate n c)

lemma isUuid_spelled {c : UInt8} (h : isDigit c = true) : IsUuid isDigit (spelled c) := by
  refine ⟨[8, 4, 4, 4, 12].map fun n => List.replicate n c, by simp, fun g hg x hx => ?_, rfl⟩
  obtain ⟨n, -, rfl⟩ := List.mem_map.mp hg
  rwa [List.eq_of_mem_replicate hx]

lemma isDigit_capital : isDigit 65 = true := by decide
lemma isDigit_small : isDigit 97 = true := by decide

/-- An identifier in capital letters and in small ones, read into different memory. -/
def capitals : Spelling := ⟨(isUuid_spelled isDigit_capital).cstring, Text.zeros⟩
def smalls : Spelling := ⟨(isUuid_spelled isDigit_small).cstring, UID.ofBytes [1, 2, 3]⟩

/-- A peer pings under the one, and is looked up under the other. -/
def bothCases : List Call :=
  [⟨capitals, none, Sockaddr.ofBytes [2, 0, 7, 232], ⟨0, 0, 0⟩⟩,
    ⟨smalls, some smalls, Sockaddr.ofBytes [2, 0, 7, 233], ⟨1, 1, 1⟩⟩]

theorem directory_by_text_bothCases : ∃ rs as s d,
    bothCases.mapM (Call.request .signed) = .ok rs ∧
      serve MemPresence.empty rs = .ok (as, s) ∧
      run (consult fun t => t.text.chars.map lower) [] bothCases = .ok (as.map shown, d) := by
  have hform : ∀ c ∈ bothCases, c.Canonical := by
    intro c hc
    rcases List.mem_cons.mp hc with rfl | hc
    · exact ⟨isUuid_spelled isDigit_capital, fun t h => by cases h⟩
    · obtain rfl := List.mem_singleton.mp hc
      refine ⟨isUuid_spelled isDigit_small, fun t h => ?_⟩
      cases h
      exact isUuid_spelled isDigit_small
  obtain ⟨d, hd⟩ := (directory_by_text .signed bothCases _ rfl (by decide) _ _ rfl).2 hform
  exact ⟨_, _, _, d, rfl, rfl, hd⟩

end SimplePresence.Directory
