/-
# Messages on a byte stream

A sender writes messages to a byte stream, each with its length in front.  The bytes
arrive in pieces of any size.  A receiver is invoked while there are unread bytes; it
reads the length, then the body, and hands the message on.  Either read may time out
while it waits for bytes, and then consumes none.

The length of a message has been consumed when its body is waited for.  A receiver that
gives up there and stays on the stream is invoked next in the middle of a message.  If it
leaves the stream instead, or never gives up there, it always starts at a message, and
receives the messages in the order in which they were sent; and when it comes to rest it
has received all of them.
-/

import Gokit.Math.Bytes
import Gokit.Math.Transition

namespace Gokit.Math

/-- The bytes with their number in front, in `k` bytes. -/
def framed (k : Nat) (data : Bytes) : Bytes := putLittleEndian k data.length ++ data

section Framed

variable {k : Nat} (data later : Bytes)

theorem take_framed : (framed k data ++ later).take k = putLittleEndian k data.length := by
  rw [framed, List.append_assoc]
  exact List.take_left' (length_putLittleEndian ..)

theorem drop_framed : (framed k data ++ later).drop k = data ++ later := by
  rw [framed, List.append_assoc]
  exact List.drop_left' (length_putLittleEndian ..)

theorem le_length_framed : k ≤ (framed k data).length := by
  rw [framed, List.length_append, length_putLittleEndian]
  exact Nat.le_add_right ..

end Framed

/-- How messages are turned into bytes and back. -/
structure Format (M : Type) where
  encode : M → Bytes
  decode : Bytes → Option M

/-- A message that can be decoded again, and whose length fits in the header. -/
structure Format.Fits {M : Type} (fmt : Format M) (k : Nat) (msg : M) : Prop where
  decodes : fmt.decode (fmt.encode msg) = some msg
  short : (fmt.encode msg).length < 256 ^ k

inductive Phase
  /-- not invoked -/
  | idle
  /-- about to read the length -/
  | header
  /-- about to read the body -/
  | body (size : Nat)
  deriving DecidableEq, Repr

structure Stream (M : Type) where
  /-- the messages written, in order -/
  sent : List M := []
  /-- bytes under way -/
  wire : Bytes := []
  /-- bytes that have arrived and not been read -/
  unread : Bytes := []
  phase : Phase := .idle
  isOpen : Bool := true
  /-- the messages handed on, in order -/
  received : List M := []
  deriving DecidableEq

namespace Stream

variable {M : Type}

inductive Action (M : Type)
  | send (msg : M)
  /-- some bytes arrive -/
  | arrive (n : Nat)
  | invoke
  | readHeader
  | readBody
  /-- the current read fails -/
  | timeout
  | close

def readHeader (k : Nat) (s : Stream M) : Stream M :=
  { s with phase := .body (littleEndian (s.unread.take k)), unread := s.unread.drop k }

/-- Read the body and hand the message on; what cannot be decoded is dropped. -/
def readBody (fmt : Format M) (s : Stream M) : Stream M :=
  match s.phase with
  | .body size =>
    { s with
      phase := .idle
      unread := s.unread.drop size
      received := s.received ++ (fmt.decode (s.unread.take size)).toList }
  | _ => s

variable {size : Nat}

theorem readBody_of_body (fmt : Format M) {s : Stream M} (hphase : s.phase = .body size) :
    s.readBody fmt = { s with
      phase := .idle
      unread := s.unread.drop size
      received := s.received ++ (fmt.decode (s.unread.take size)).toList } := by
  simp only [readBody, hphase]

/-- The receiver waits for a body, and all of it has arrived. -/
def BodyReady (s : Stream M) : Prop :=
  match s.phase with
  | .body size => size ≤ s.unread.length
  | _ => False

theorem bodyReady_iff {s : Stream M} :
    s.BodyReady ↔ ∃ size, s.phase = .body size ∧ size ≤ s.unread.length := by
  unfold BodyReady
  cases s.phase <;> simp

instance (s : Stream M) : Decidable s.BodyReady :=
  match hphase : s.phase with
  | .body size => decidable_of_iff (size ≤ s.unread.length) (by simp [bodyReady_iff, hphase])
  | .idle => isFalse (by simp [bodyReady_iff, hphase])
  | .header => isFalse (by simp [bodyReady_iff, hphase])

/-- A stream with headers of `k` bytes; `closes` says whether the receiver closes it when
a read has failed. -/
def system (fmt : Format M) (k : Nat) (closes : Bool) : System (Stream M) (Action M) where
  init := {}
  Enabled s
    | .send _ => True
    | .arrive n => 0 < n ∧ n ≤ s.wire.length
    | .invoke => s.phase = .idle ∧ s.isOpen = true ∧ 0 < s.unread.length
    | .readHeader => s.phase = .header ∧ k ≤ s.unread.length
    | .readBody => s.BodyReady
    | .timeout => s.phase ≠ .idle
    | .close => True
  next s
    | .send msg => { s with
        sent := s.sent ++ [msg]
        wire := s.wire ++ framed k (fmt.encode msg) }
    | .arrive n => { s with unread := s.unread ++ s.wire.take n, wire := s.wire.drop n }
    | .invoke => { s with phase := .header }
    | .readHeader => s.readHeader k
    | .readBody => s.readBody fmt
    | .timeout => { s with phase := .idle, isOpen := s.isOpen && !closes }
    | .close => { s with isOpen := false }

instance (fmt : Format M) (k : Nat) (closes : Bool) (s : Stream M) :
    (a : Action M) → Decidable ((system fmt k closes).Enabled s a)
  | .send _ => inferInstanceAs (Decidable True)
  | .arrive _ => inferInstanceAs (Decidable (_ < _ ∧ _ ≤ _))
  | .invoke => inferInstanceAs (Decidable (_ = _ ∧ _ = _ ∧ _ < _))
  | .readHeader => inferInstanceAs (Decidable (_ = _ ∧ _ ≤ _))
  | .readBody => inferInstanceAs (Decidable s.BodyReady)
  | .timeout => inferInstanceAs (Decidable (_ ≠ _))
  | .close => inferInstanceAs (Decidable True)

/-! ## The receiver keeps to the messages -/

section Aligned

variable (fmt : Format M) (k : Nat)

def bytes (msgs : List M) : Bytes := msgs.flatMap fun msg => framed k (fmt.encode msg)

/-- The unread bytes are those of the messages not received: the next byte is the first of
a message. -/
def AtBoundary (s : Stream M) : Prop :=
  ∃ rest, s.sent = s.received ++ rest ∧ (∀ msg ∈ rest, fmt.Fits k msg) ∧
    s.unread ++ s.wire = bytes fmt k rest

/-- The unread bytes begin with the body of the first message not received, and its size is
known. -/
def InMessage (s : Stream M) (size : Nat) : Prop :=
  ∃ msg rest, s.sent = s.received ++ msg :: rest ∧ (∀ m ∈ msg :: rest, fmt.Fits k m) ∧
    size = (fmt.encode msg).length ∧ s.unread ++ s.wire = fmt.encode msg ++ bytes fmt k rest

/-- The receiver is where its phase says, unless it has left the stream for good. -/
def Aligned (s : Stream M) : Prop :=
  match s.phase with
  | .idle => AtBoundary fmt k s ∨ (s.isOpen = false ∧ s.received <+: s.sent)
  | .header => AtBoundary fmt k s
  | .body size => InMessage fmt k s size

variable {fmt k} {s s' : Stream M}

theorem bytes_cons (msg : M) (rest : List M) :
    bytes fmt k (msg :: rest) = framed k (fmt.encode msg) ++ bytes fmt k rest :=
  List.flatMap_cons

theorem bytes_append_singleton (msgs : List M) (msg : M) :
    bytes fmt k (msgs ++ [msg]) = bytes fmt k msgs ++ framed k (fmt.encode msg) := by
  rw [bytes, List.flatMap_append, List.flatMap_singleton]
  rfl

/-- Only what is unread or under way counts, wherever it is. -/
theorem AtBoundary.congr (hat : AtBoundary fmt k s) (hsent : s'.sent = s.sent)
    (hreceived : s'.received = s.received) (hbytes : s'.unread ++ s'.wire = s.unread ++ s.wire) :
    AtBoundary fmt k s' := by
  unfold AtBoundary
  rw [hsent, hreceived, hbytes]
  exact hat

theorem InMessage.congr (hin : InMessage fmt k s size) (hsent : s'.sent = s.sent)
    (hreceived : s'.received = s.received) (hbytes : s'.unread ++ s'.wire = s.unread ++ s.wire) :
    InMessage fmt k s' size := by
  unfold InMessage
  rw [hsent, hreceived, hbytes]
  exact hin

theorem AtBoundary.send (hat : AtBoundary fmt k s) {msg : M} (hfits : fmt.Fits k msg)
    (hsent : s'.sent = s.sent ++ [msg]) (hreceived : s'.received = s.received)
    (hbytes : s'.unread ++ s'.wire = s.unread ++ s.wire ++ framed k (fmt.encode msg)) :
    AtBoundary fmt k s' := by
  obtain ⟨rest, hrest, hall, hunread⟩ := hat
  have hall' : ∀ m ∈ rest ++ [msg], fmt.Fits k m := by
    intro m hm
    rcases List.mem_append.mp hm with h | h
    · exact hall m h
    · exact List.mem_singleton.mp h ▸ hfits
  refine ⟨rest ++ [msg], ?_, hall', ?_⟩
  · rw [hsent, hreceived, hrest, List.append_assoc]
  · rw [hbytes, hunread, bytes_append_singleton]

theorem InMessage.send (hin : InMessage fmt k s size) {msg : M} (hfits : fmt.Fits k msg)
    (hsent : s'.sent = s.sent ++ [msg]) (hreceived : s'.received = s.received)
    (hbytes : s'.unread ++ s'.wire = s.unread ++ s.wire ++ framed k (fmt.encode msg)) :
    InMessage fmt k s' size := by
  obtain ⟨first, rest, hrest, hall, hsize, hunread⟩ := hin
  have hall' : ∀ m ∈ first :: (rest ++ [msg]), fmt.Fits k m := by
    intro m hm
    rw [← List.cons_append] at hm
    rcases List.mem_append.mp hm with h | h
    · exact hall m h
    · exact List.mem_singleton.mp h ▸ hfits
  refine ⟨first, rest ++ [msg], ?_, hall', hsize, ?_⟩
  · rw [hsent, hreceived, hrest, List.append_assoc, List.cons_append]
  · rw [hbytes, hunread, bytes_append_singleton, List.append_assoc]

/-- The length read at a boundary is that of the first message. -/
theorem AtBoundary.readHeader (hk : 0 < k) (hat : AtBoundary fmt k s)
    (henough : k ≤ s.unread.length) :
    InMessage fmt k (s.readHeader k) (littleEndian (s.unread.take k)) := by
  obtain ⟨rest, hrest, hall, hunread⟩ := hat
  cases rest with
  | nil =>
    have hlen := congrArg List.length hunread
    rw [List.length_append, bytes, List.flatMap_nil, List.length_nil] at hlen
    omega
  | cons msg rest =>
    rw [bytes_cons] at hunread
    have hhead : s.unread.take k = putLittleEndian k (fmt.encode msg).length := by
      rw [← take_framed (fmt.encode msg) (bytes fmt k rest), ← hunread,
        List.take_append_of_le_length henough]
    have hbody : s.unread.drop k ++ s.wire = fmt.encode msg ++ bytes fmt k rest := by
      rw [← List.drop_append_of_le_length henough, hunread, drop_framed]
    refine ⟨msg, rest, hrest, hall, ?_, hbody⟩
    rw [hhead]
    exact littleEndian_putLittleEndian (hall msg List.mem_cons_self).short

/-- The body read is that of the first message, which ends at a boundary. -/
theorem InMessage.readBody (hin : InMessage fmt k s size) (hphase : s.phase = .body size)
    (henough : size ≤ s.unread.length) : AtBoundary fmt k (s.readBody fmt) := by
  obtain ⟨msg, rest, hrest, hall, hsize, hunread⟩ := hin
  have htake : s.unread.take size = fmt.encode msg := by
    have happend : (s.unread ++ s.wire).take size = s.unread.take size :=
      List.take_append_of_le_length henough
    rw [← happend, hunread]
    exact List.take_left' hsize.symm
  have hdrop : s.unread.drop size ++ s.wire = bytes fmt k rest := by
    rw [← List.drop_append_of_le_length henough, hunread]
    exact List.drop_left' hsize.symm
  rw [readBody_of_body fmt hphase, htake, (hall msg List.mem_cons_self).decodes]
  refine ⟨rest, ?_, fun m hm => hall m (List.mem_cons_of_mem _ hm), hdrop⟩
  show s.sent = (s.received ++ [msg]) ++ rest
  rw [hrest, List.append_assoc]
  rfl

end Aligned

section Runs

variable {fmt : Format M} {k : Nat} {closes : Bool} {s : Stream M}

/-- Messages fit; and a read that fails in the middle of a message is followed by closing
the stream. -/
def Careful (fmt : Format M) (k : Nat) (closes : Bool) (s : Stream M) : Action M → Prop
  | .send msg => fmt.Fits k msg
  | .timeout => closes = true ∨ ∀ size, s.phase ≠ .body size
  | _ => True

theorem Aligned.of_idle (hphase : s.phase = .idle)
    (h : AtBoundary fmt k s ∨ (s.isOpen = false ∧ s.received <+: s.sent)) : Aligned fmt k s := by
  rw [Aligned, hphase]
  exact h

theorem Aligned.idle (h : Aligned fmt k s) (hphase : s.phase = .idle) :
    AtBoundary fmt k s ∨ (s.isOpen = false ∧ s.received <+: s.sent) := by
  rw [Aligned, hphase] at h
  exact h

theorem Aligned.header (h : Aligned fmt k s) (hphase : s.phase = .header) : AtBoundary fmt k s := by
  rw [Aligned, hphase] at h
  exact h

theorem Aligned.body (h : Aligned fmt k s) (hphase : s.phase = .body size) :
    InMessage fmt k s size := by
  rw [Aligned, hphase] at h
  exact h

/-- Steps that touch neither the receiver nor what it has to read. -/
theorem Aligned.congr {s' : Stream M} (h : Aligned fmt k s) (hphase : s'.phase = s.phase)
    (hsent : s'.sent = s.sent) (hreceived : s'.received = s.received)
    (hopen : s.isOpen = false → s'.isOpen = false)
    (hbytes : s'.unread ++ s'.wire = s.unread ++ s.wire) : Aligned fmt k s' := by
  cases hat : s.phase with
  | idle =>
    apply Aligned.of_idle (hphase.trans hat)
    rcases h.idle hat with hboundary | ⟨hleft, hreceived'⟩
    · exact .inl (hboundary.congr hsent hreceived hbytes)
    · rw [hsent, hreceived]
      exact .inr ⟨hopen hleft, hreceived'⟩
  | header =>
    rw [Aligned, hphase, hat]
    exact (h.header hat).congr hsent hreceived hbytes
  | body size =>
    rw [Aligned, hphase, hat]
    exact (h.body hat).congr hsent hreceived hbytes

theorem Aligned.send (h : Aligned fmt k s) {msg : M} (hfits : fmt.Fits k msg) :
    Aligned fmt k { s with
      sent := s.sent ++ [msg]
      wire := s.wire ++ framed k (fmt.encode msg) } := by
  have hbytes := (List.append_assoc s.unread s.wire (framed k (fmt.encode msg))).symm
  cases hat : s.phase with
  | idle =>
    apply Aligned.of_idle rfl
    rcases h.idle hat with hboundary | ⟨hleft, hreceived⟩
    · exact .inl (hboundary.send hfits rfl rfl hbytes)
    · exact .inr ⟨hleft, hreceived.trans (List.prefix_append ..)⟩
  | header => exact (h.header hat).send hfits rfl rfl hbytes
  | body size => exact (h.body hat).send hfits rfl rfl hbytes

theorem AtBoundary.received_le_sent (h : AtBoundary fmt k s) : s.received <+: s.sent := by
  obtain ⟨rest, hrest, -⟩ := h
  exact ⟨rest, hrest.symm⟩

/-- What has been received is the beginning of what was sent. -/
theorem Aligned.received_le_sent (h : Aligned fmt k s) : s.received <+: s.sent := by
  cases hat : s.phase with
  | idle =>
    rcases h.idle hat with hboundary | ⟨-, hreceived⟩
    · exact hboundary.received_le_sent
    · exact hreceived
  | header => exact (h.header hat).received_le_sent
  | body size =>
    obtain ⟨msg, rest, hrest, -⟩ := h.body hat
    exact ⟨msg :: rest, hrest.symm⟩

/-- A receiver on an open stream that is not in a message is at the first byte of one. -/
theorem Aligned.atBoundary (h : Aligned fmt k s) (hopen : s.isOpen = true)
    (hphase : ∀ size, s.phase ≠ .body size) : AtBoundary fmt k s := by
  cases hat : s.phase with
  | idle =>
    rcases h.idle hat with hboundary | ⟨hleft, -⟩
    · exact hboundary
    · rw [hopen] at hleft
      cases hleft
  | header => exact h.header hat
  | body size => exact absurd hat (hphase size)

/-- A read that fails: in the middle of a message the receiver leaves the stream. -/
theorem Aligned.timeout (h : Aligned fmt k s) (hcareful : Careful fmt k closes s .timeout)
    (hphase : s.phase ≠ .idle) :
    Aligned fmt k { s with phase := .idle, isOpen := s.isOpen && !closes } := by
  apply Aligned.of_idle rfl
  rcases hcareful with hcloses | hbody
  · right
    exact ⟨by rw [hcloses]; exact Bool.and_false _, h.received_le_sent⟩
  · left
    cases hat : s.phase with
    | idle => exact absurd hat hphase
    | header => exact (h.header hat).congr rfl rfl rfl
    | body size => exact absurd hat (hbody size)

theorem Aligned.next (hk : 0 < k) (h : Aligned fmt k s) (a : Action M)
    (henabled : (system fmt k closes).Enabled s a) (hcareful : Careful fmt k closes s a) :
    Aligned fmt k ((system fmt k closes).next s a) := by
  cases a with
  | send msg => exact h.send hcareful
  | arrive n =>
    have hbytes : (s.unread ++ s.wire.take n) ++ s.wire.drop n = s.unread ++ s.wire := by
      rw [List.append_assoc, List.take_append_drop]
    exact h.congr rfl rfl rfl id hbytes
  | invoke =>
    obtain ⟨hphase, hopen, -⟩ := henabled
    have hat : AtBoundary fmt k s := by
      apply h.atBoundary hopen
      rw [hphase]
      exact fun _ h => nomatch h
    exact hat.congr rfl rfl rfl
  | readHeader => exact (h.header henabled.1).readHeader hk henabled.2
  | readBody =>
    obtain ⟨size, hphase, henough⟩ := bodyReady_iff.mp henabled
    apply Aligned.of_idle
    · exact congrArg Stream.phase (readBody_of_body fmt hphase)
    · exact .inl ((h.body hphase).readBody hphase henough)
  | timeout => exact h.timeout hcareful henabled
  | close => exact h.congr rfl rfl rfl (fun _ => rfl) rfl

/-- **A careful receiver stays aligned**, whatever the pieces in which the bytes arrive. -/
theorem run_aligned (hk : 0 < k) (hrun : (system fmt k closes).Run (Careful fmt k closes) s) :
    Aligned fmt k s := by
  have hinit : Aligned fmt k (system fmt k closes).init :=
    .inl ⟨[], rfl, fun _ h => absurd h List.not_mem_nil, rfl⟩
  exact hrun.invariant hinit fun _ a h henabled hcareful => h.next hk a henabled hcareful

/-- No byte is under way, and the receiver cannot go on. -/
def AtRest (fmt : Format M) (k : Nat) (closes : Bool) (s : Stream M) : Prop :=
  s.wire = [] ∧ ¬ (system fmt k closes).Enabled s .invoke ∧
    ¬ (system fmt k closes).Enabled s .readHeader ∧ ¬ (system fmt k closes).Enabled s .readBody

/-- **A receiver that comes to rest on an open stream has received everything.** -/
theorem Aligned.received_eq (hk : 0 < k) (h : Aligned fmt k s) (hopen : s.isOpen = true)
    (hrest : AtRest fmt k closes s) : s.received = s.sent := by
  obtain ⟨hwire, hinvoke, hheader, hbody⟩ := hrest
  have hboundary (hat : AtBoundary fmt k s) (hshort : s.unread.length < k) :
      s.received = s.sent := by
    obtain ⟨rest, hsent, -, hunread⟩ := hat
    rw [hwire, List.append_nil] at hunread
    cases rest with
    | nil => rw [hsent, List.append_nil]
    | cons msg rest =>
      have hlong : k ≤ s.unread.length := by
        rw [hunread, bytes_cons, List.length_append]
        exact Nat.le_trans (le_length_framed _) (Nat.le_add_right ..)
      omega
  cases hat : s.phase with
  | idle =>
    apply hboundary
    · exact h.atBoundary hopen fun size hsize => nomatch hat.symm.trans hsize
    · have : ¬ 0 < s.unread.length := fun hunread => hinvoke ⟨hat, hopen, hunread⟩
      omega
  | header =>
    apply hboundary (h.header hat)
    exact Nat.lt_of_not_le fun henough => hheader ⟨hat, henough⟩
  | body size =>
    obtain ⟨msg, rest, -, -, hsize, hunread⟩ := h.body hat
    have henough : size ≤ s.unread.length := by
      rw [hwire, List.append_nil] at hunread
      rw [hunread, List.length_append, hsize]
      exact Nat.le_add_right ..
    exact absurd (bodyReady_iff.mpr ⟨size, hat, henough⟩) hbody

end Runs

end Stream

end Gokit.Math
